import EsphomeEbus.Agreement
import EsphomeEbus.Poll

/-!
# From a poll to publications everywhere

A component asks another for its identification, and every item on the bus that looks for the
message publishes what it reads off the response, whosever it is.

* `turns`: how often the message task of a component runs;
* `mem_handled`: when it has handled what was taken into the history queue;
* `Asked.taken`: every component takes the telegram there;
* `network_published`: and its items publish.
-/

namespace EsphomeEbus

open Elf Transducer SharedMedium

namespace Network

variable {Q : QueueApi Byte} {F : Type*} {n : ℕ} {P : Platform Q F} {net : Network Q F n}
  {i : Fin n} {settings : Fin n → ComponentSettings F} {cs : Fin n → EbusComponent Q F}

/-- How often the message task of a component runs. -/
def turns (i : Fin n) (xs : List (NetworkSlot n)) : ℕ :=
  (xs.flatMap fun x => x.intake i).count .message

theorem count_stepsOf (xs : List (NetworkSlot n)) :
    (stepsOf P i net xs).count (.task .message) = turns i xs := by
  induction xs generalizing net with
  | nil => rfl
  | cons x xs ih =>
    have htasks : ((x.intake i).map ComponentStep.task).count (.task .message) =
        (x.intake i).count .message :=
      List.count_map_of_injective _ _ (fun _ _ h => ComponentStep.task.inj h) _
    rw [stepsOf_cons, List.count_append, List.count_cons_of_ne (by simp), htasks, ih, turns, turns,
      List.flatMap_cons, List.count_append]

theorem stepsOf_append (xs ys : List (NetworkSlot n)) : stepsOf P i net (xs ++ ys) =
    stepsOf P i net xs ++ stepsOf P i (run (step P) net xs) ys :=
  unroll_append net xs ys

/-- Of what waits and one more, everything is handled in as many turns and one more. -/
theorem mem_handled (hQ : Q.Lawful) (hP : P.memory.Spares) {c : EbusComponent Q F}
    {own : ComponentSettings F} (hc : c.Kept own) {steps rest : List ComponentStep} {t : Telegram}
    (htaken : (outputs (EbusComponent.step P) c steps).flatMap ComponentOutput.handled ++
      (run (EbusComponent.step P) c steps).history = c.history ++ [t])
    (hturns : c.history.length < rest.count (.task .message)) :
    t ∈ (outputs (EbusComponent.step P) c (steps ++ rest)).flatMap ComponentOutput.handled := by
  have hafter : (run (EbusComponent.step P) c steps).Kept own := hc.run hQ hP steps
  rw [outputs_append, List.flatMap_append]
  generalize run (EbusComponent.step P) c steps = c' at htaken hafter ⊢
  have hflow : (outputs (EbusComponent.step P) c' rest).flatMap ComponentOutput.handled ++
      (run (EbusComponent.step P) c' rest).history = _ :=
    EbusComponent.run_accepted hQ hP hafter rest
  have hserved : min (rest.count (.task .message)) c'.history.length ≤
      ((outputs (EbusComponent.step P) c' rest).flatMap ComponentOutput.handled).length :=
    EbusComponent.min_turns_le_handled hQ hP hafter rest
  have hlen := congrArg List.length htaken
  rw [List.length_append, List.length_append, List.length_singleton] at hlen
  -- all that the queue holds after the first steps is handled in the rest
  have hstart : c'.history <+:
      (outputs (EbusComponent.step P) c' rest).flatMap ComponentOutput.handled :=
    List.prefix_of_prefix_length_le (List.prefix_append _ _) (hflow ▸ List.prefix_append _ _)
      (by omega)
  have hmem : t ∈ c.history ++ [t] := List.mem_append_right _ List.mem_cons_self
  rw [← htaken] at hmem
  rcases List.mem_append.mp hmem with hmem | hmem
  · exact List.mem_append_left _ hmem
  · exact List.mem_append_right _ (hstart.subset hmem)

section Configured

variable (hQ : Q.Lawful) (hP : P.memory.Spares)
  (hsetup : ∀ i, EbusComponent.setup Q (settings i) = some (cs i))
  (hconf : ∀ i, (settings i).Configured)
  (hdistinct : ∀ i j, (settings i).primaryAddress = (settings j).primaryAddress → i = j)
  (hzero : ∀ i j, ¬ ((settings i).primaryAddress = 0x00#8 ∧ (settings j).primaryAddress = 0xFF#8))
  {xs ys zs : List (NetworkSlot n)} (hx : Along (step P) Undisturbed (start cs) xs)
  {a r : Fin n} {m : Message} (h : Asked P (run (step P) (start cs) xs) ys a r m)

include hQ hP hsetup hconf hdistinct hzero hx h

/-- Every component that has room takes the telegram of the exchange into its history queue. -/
theorem Asked.taken : ∃ t, Carries t m ∧ ∀ i,
    let c := (run (step P) (start cs) xs i).state
    let steps := stepsOf P i (run (step P) (start cs) xs) ys
    c.history.length < (settings i).historyQueueSize.toNat →
      (outputs (EbusComponent.step P) c steps).flatMap ComponentOutput.handled ++
        (run (EbusComponent.step P) c steps).history = c.history ++ [t] := by
  obtain ⟨hbegun, hout⟩ := h.begun hQ hP hsetup hconf hdistinct hzero hx
  have hsound : ∀ i, (run (step P) (start cs) xs i).state.Sound (settings i) :=
    sound_run hQ hP hconf (sound_start hQ hsetup) xs
  obtain ⟨t, hcarries, hqueued⟩ := hbegun.queues hout
  refine ⟨t, hcarries, ?_⟩
  intro i c steps hroom
  have hqueues : c.ebus.config.queueReceivedTelegram = true := by
    rw [(hsound i).config]
    rfl
  have hcalls : c.ebus.queuedDuring (EbusComponent.callsOf P c steps) = [t] :=
    (congrArg _ (callsOf_stepsOf hQ hP hconf hsound ys)).trans (hqueued i hqueues)
  have haccepted := (EbusComponent.accepted_eq_queued_iff hQ hP (hsound i).sized steps).mpr
    (EbusComponent.along_hasRoom hQ hP (hsound i).toKept steps (by rw [hcalls]; exact hroom))
  rw [EbusComponent.run_accepted hQ hP (hsound i).toKept, haccepted, hcalls]

/-- **One poll, and everyone publishes the answer.**  In every run of such a bus, where an exchange
takes place as above and the tasks go on in any way: a component that has had room in its history
queue, and whose message task has run as often as telegrams were waiting there and once more, has
published for each of its items that looks for the message what the item reads off the response. -/
theorem network_published {item : Item F} (hitem : item ∈ (settings i).items)
    (hconcerns : m.Concerns item.toEbusItem) (hfits : item.Fits m.response)
    (hroom : (run (step P) (start cs) xs i).state.history.length <
      (settings i).historyQueueSize.toNat)
    (hturns : (run (step P) (start cs) xs i).state.history.length < turns i zs) :
    (item, item.reading P.divide m.response) ∈ (outputs (EbusComponent.step P)
      (run (step P) (start cs) xs i).state
      (stepsOf P i (run (step P) (start cs) xs) (ys ++ zs))).flatMap
        ComponentOutput.published := by
  obtain ⟨t, hcarries, htaken⟩ := h.taken hQ hP hsetup hconf hdistinct hzero hx
  obtain ⟨hbegun, -⟩ := h.begun hQ hP hsetup hconf hdistinct hzero hx
  have hsound : (run (step P) (start cs) xs i).state.Sound (settings i) :=
    sound_run hQ hP hconf (sound_start hQ hsetup) xs i
  rw [EbusComponent.published_run hQ hP hsound.sized, stepsOf_append, List.mem_flatMap]
  refine ⟨t, mem_handled hQ hP hsound.toKept (htaken i hroom)
    (by rw [count_stepsOf]; exact hturns), ?_⟩
  refine EbusComponent.mem_publications.mpr
    ⟨hcarries.completed, hsound.sameSettings ▸ hitem, ?_⟩
  exact hconcerns.processReceived hcarries hbegun.type_eq hfits

end Configured

/-- The sensor of component 0 publishes two letters of the name of component 1. -/
theorem pair_publishes : ∃ item ∈ (pairSettings false 0).items,
    (item, Publication.number 0x5345) ∈
      (outputs (EbusComponent.step EbusComponent.dividing)
        (run (step EbusComponent.dividing) (start (pair false)) [polling] 0).state
        (stepsOf EbusComponent.dividing 0
          (run (step EbusComponent.dividing) (start (pair false)) [polling])
          (List.replicate 23 ⟨syn, fun _ => []⟩ ++ [⟨syn, fun _ => [.message]⟩]))).flatMap
            ComponentOutput.published := by
  refine ⟨_, List.mem_singleton_self _, ?_⟩
  refine network_published lawful_bounded EbusComponent.spares_dividing (setup_pair false)
    (configured_pair false) (distinct_pair false) (nonzero_pair false) (along_pair false) asked_pair
    (List.mem_singleton_self _) ⟨.inr rfl, rfl, List.prefix_rfl⟩ ?_ (by decide +kernel)
    (by decide +kernel)
  show 1 + 2 ≤ 10
  decide

end Network

end EsphomeEbus
