import EsphomeEbus.Library.ByteStuffing
import EsphomeEbus.Telegram
import EsphomeEbus.Ebus
import EsphomeEbus.Receiver
import EsphomeEbus.Content
import EsphomeEbus.History
import EsphomeEbus.Component
import EsphomeEbus.Delivery
import EsphomeEbus.Message
import EsphomeEbus.Reception
import EsphomeEbus.Reply
import EsphomeEbus.Acknowledge
import EsphomeEbus.Arbitration
import EsphomeEbus.Contention
import EsphomeEbus.Transaction
import EsphomeEbus.Zebus.Ebus
import EsphomeEbus.Zebus.Port
import EsphomeEbus.Answer
import EsphomeEbus.Responder
import EsphomeEbus.Escape
import EsphomeEbus.Lock
import EsphomeEbus.Retry
import EsphomeEbus.Roles
import EsphomeEbus.Bounds
import EsphomeEbus.Grammar
import EsphomeEbus.Item
import EsphomeEbus.Sensor
import EsphomeEbus.Limits
import EsphomeEbus.Tries
import EsphomeEbus.Gap
import EsphomeEbus.Rolling
import EsphomeEbus.Checksum
import EsphomeEbus.Zebus.RoundTrip
import EsphomeEbus.Exchange
import EsphomeEbus.Library.TaskQueue
import EsphomeEbus.Objects
import EsphomeEbus.Tasks
import EsphomeEbus.Queues
import EsphomeEbus.Configured
import EsphomeEbus.Configuration
import EsphomeEbus.Network
import EsphomeEbus.Listener
import EsphomeEbus.Poll
import EsphomeEbus.Service
import EsphomeEbus.Agreement
import EsphomeEbus.Publication
import EsphomeEbus.Zebus.Application
import EsphomeEbus.Zebus.Handlers
import EsphomeEbus.Zebus.Refinement
