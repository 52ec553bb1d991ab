import OfflineSync.Device
import Mathlib.Data.List.Sort

/-!
# The order of authoring

What a device authors is a sequence of batches, one for each store (`authoredBy_eq_flatMap`).
Within a batch the write offset counts the events, so as long as the clock does not go back
their order keys increase. The count starts again with the next store, so between two stores of
one item the clock separates the events, or the positions in their batches do, and if neither
does the ids that were drawn.

`authoring_order` says exactly for which stores the order of authoring is kept whatever ids are
drawn. For the other direction it has the same stores made again, with the ids dealt in falling
order (`exists_redrawn`). `same_millisecond` is a run in which the order is not kept: the fold ends
with the older edit.
-/

namespace OfflineSync

open Dedup

variable {ι : Type} [DecidableEq ι]

namespace NetRun

variable {r : NetRun ι} {d : ι} {t u v : ℕ} {id : ItemId}
  {changes : List (Uuid × EntityEvent ItemEvent)}

/-! ### The batches of a device -/

/-- What device `d` authors at time `u`: the batch of its store, if it stores. -/
def storedBatch (r : NetRun ι) (d : ι) (u : ℕ) : List ItemDescriptor :=
  match r.act u with
  | some (.author d' id changes) =>
    if d' = d then
      DeviceEventLog.authoredBatch
        (ItemStorage.appendEvents ((r.state u).provider d).get id changes)
    else []
  | _ => []

private theorem storedBatch_of_act (ha : r.act u = some (.author d id changes)) :
    r.storedBatch d u = DeviceEventLog.authoredBatch
      (ItemStorage.appendEvents ((r.state u).provider d).get id changes) := by
  simp [storedBatch, ha]

private theorem authoredBy_succ (ht : t < r.length) :
    (r.state (t + 1)).authoredBy d = (r.state t).authoredBy d ++ r.storedBatch d t := by
  by_cases hact : ∃ id changes, r.act t = some (.author d id changes)
  · obtain ⟨id, changes, ha⟩ := hact
    obtain ⟨hf, hstate⟩ := author_of_act ht ha
    rw [storedBatch_of_act ha, hstate, (r.sound ht.le).authoredBy_author_self hf]
  · have hnil : r.storedBatch d t = [] := by
      rw [storedBatch]
      split
      next d' id changes ha =>
        refine if_neg ?_
        rintro rfl
        exact hact ⟨id, changes, ha⟩
      next => rfl
    rw [hnil, List.append_nil]
    rcases r.step_cases ht with ⟨-, heq⟩ | ⟨a, ha, hstep⟩
    · rw [heq]
    · exact (r.inv ht.le).authoredBy_of_step hstep fun id changes heq =>
        hact ⟨id, changes, heq ▸ ha⟩

/-- **A device authors one batch after the other.** -/
theorem authoredBy_eq_flatMap (r : NetRun ι) (d : ι) (ht : t ≤ r.length) :
    (r.state t).authoredBy d = (List.range t).flatMap (r.storedBatch d) := by
  induction t with
  | zero =>
    obtain ⟨-, hauth, -⟩ := r.init_state
    simp [Replicas.authoredBy, hauth]
  | succ t ih =>
    rw [authoredBy_succ ht, ih (Nat.le_of_succ_le ht), List.range_succ, List.flatMap_append,
      List.flatMap_singleton]

/-- The event a store makes of its `i`-th change. -/
structure IsChange (r : NetRun ι) (d : ι) (u : ℕ) (id : ItemId)
    (changes : List (Uuid × EntityEvent ItemEvent)) (i : ℕ) (p : Uuid × EntityEvent ItemEvent)
    (e : ItemDescriptor) : Prop where
  act : r.act u = some (.author d id changes)
  get : changes[i]? = some p
  entityId : e.entityId = id
  time : e.replicaTimeMs = p.2.modifiedAtMs
  offset : e.replicaWriteOffset = i + 1
  eventId : e.replicaEventId = p.1

private theorem getElem?_storedBatch {i : ℕ} {e : ItemDescriptor}
    (h : (r.storedBatch d u)[i]? = some e) : ∃ id changes p, IsChange r d u id changes i p e := by
  by_cases hact : ∃ id changes, r.act u = some (.author d id changes)
  · obtain ⟨id, changes, ha⟩ := hact
    rw [storedBatch_of_act ha, DeviceEventLog.getElem?_authoredBatch, ItemStorage.appendEvents,
      List.getElem?_map, Option.map_map] at h
    obtain ⟨p, hp, rfl⟩ := Option.map_eq_some_iff.mp h
    exact ⟨id, changes, p, ha, hp, rfl, rfl, rfl, rfl⟩
  · rw [storedBatch] at h
    split at h
    next d' id changes ha =>
      split_ifs at h with hd
      · exact absurd ⟨id, changes, hd ▸ ha⟩ hact
      · simp at h
    next => simp at h

private theorem exists_storedBatch (ha : r.act u = some (.author d id changes)) {i : ℕ}
    {p : Uuid × EntityEvent ItemEvent} (hp : changes[i]? = some p) :
    ∃ e ∈ r.storedBatch d u, IsChange r d u id changes i p e := by
  have hget : ∃ e, (r.storedBatch d u)[i]? = some e := by
    rw [storedBatch_of_act ha, DeviceEventLog.getElem?_authoredBatch, ItemStorage.appendEvents,
      List.getElem?_map, hp]
    exact ⟨_, rfl⟩
  obtain ⟨e, he⟩ := hget
  obtain ⟨id', changes', q, hq⟩ := getElem?_storedBatch he
  obtain ⟨-, rfl, rfl⟩ := NetAction.author.inj (Option.some.inj (ha.symm.trans hq.act))
  obtain rfl := Option.some.inj (hp.symm.trans hq.get)
  exact ⟨e, List.mem_of_getElem? he, hq⟩

/-! ### Order keys -/

/-- The store that an action makes on device `d`: its item, and the changes with their readings of
the clock. -/
def storeOf (d : ι) : Option (NetAction ι) → Option (ItemId × List (EntityEvent ItemEvent))
  | some (.author d' id changes) => if d' = d then some (id, changes.map Prod.snd) else none
  | _ => none

/-- The stores of device `d`, oldest first, whatever ids are drawn for their events. -/
def stores (r : NetRun ι) (d : ι) : List (ItemId × List (EntityEvent ItemEvent)) :=
  (List.range r.length).filterMap fun u => storeOf d (r.act u)

/-- The clock of device `d` does not go back while it records the events of one store. -/
def ClockMonotone (r : NetRun ι) (d : ι) : Prop :=
  ∀ store ∈ r.stores d, store.2.Pairwise fun p q => p.modifiedAtMs ≤ q.modifiedAtMs

/-- Any two stores of device `d` on one item keep apart: each event of the later store has the
later clock reading, or the same one and the larger position in its store. -/
def StoresApart (r : NetRun ι) (d : ι) : Prop :=
  (r.stores d).Pairwise fun a b => a.1 = b.1 →
    ∀ (i j : ℕ) p q, a.2[i]? = some p → b.2[j]? = some q →
      p.modifiedAtMs < q.modifiedAtMs ∨ p.modifiedAtMs = q.modifiedAtMs ∧ i < j

private theorem storeOf_author (d : ι) (id : ItemId)
    (changes : List (Uuid × EntityEvent ItemEvent)) :
    storeOf d (some (.author d id changes)) = some (id, changes.map Prod.snd) :=
  if_pos rfl

private theorem storeOf_eq_some {act : Option (NetAction ι)}
    {store : ItemId × List (EntityEvent ItemEvent)} :
    storeOf d act = some store ↔
      ∃ changes, act = some (.author d store.1 changes) ∧ changes.map Prod.snd = store.2 := by
  constructor
  · intro h
    unfold storeOf at h
    split at h
    next d' id changes =>
      split_ifs at h with hd
      obtain rfl := Option.some.inj h
      exact ⟨changes, hd ▸ rfl, rfl⟩
    next => cases h
  · rintro ⟨changes, rfl, hstore⟩
    rw [storeOf_author, hstore]

private theorem ClockMonotone.of_act (h : r.ClockMonotone d) (hu : u < r.length)
    (ha : r.act u = some (.author d id changes)) :
    changes.Pairwise fun p q => p.2.modifiedAtMs ≤ q.2.modifiedAtMs := by
  have hmem : (id, changes.map Prod.snd) ∈ r.stores d :=
    List.mem_filterMap.mpr ⟨u, List.mem_range.mpr hu, storeOf_eq_some.mpr ⟨changes, ha, rfl⟩⟩
  have hpairwise := h _ hmem
  rw [List.pairwise_map] at hpairwise
  exact hpairwise

/-- That stores keep apart, in terms of the times at which they happen. -/
private theorem storesApart_iff : r.StoresApart d ↔
    ∀ u v, u < v → v < r.length → ∀ id changes changes',
      r.act u = some (.author d id changes) → r.act v = some (.author d id changes') →
        ∀ (i j : ℕ) p q, changes[i]? = some p → changes'[j]? = some q →
          p.2.modifiedAtMs < q.2.modifiedAtMs ∨ p.2.modifiedAtMs = q.2.modifiedAtMs ∧ i < j := by
  rw [StoresApart, stores, List.pairwise_filterMap, List.pairwise_iff_getElem]
  simp only [List.length_range, List.getElem_range]
  constructor
  · intro h u v huv hv id changes changes' hau hav i j p q hp hq
    refine h u v (huv.trans hv) hv huv (id, changes.map Prod.snd)
      (storeOf_eq_some.mpr ⟨changes, hau, rfl⟩) (id, changes'.map Prod.snd)
      (storeOf_eq_some.mpr ⟨changes', hav, rfl⟩) rfl i j p.2 q.2 ?_ ?_
    · rw [List.getElem?_map, hp, Option.map_some]
    · rw [List.getElem?_map, hq, Option.map_some]
  · intro h u v _ hv huv a ha b hb hid i j p q hp hq
    obtain ⟨changes, hau, hchanges⟩ := storeOf_eq_some.mp ha
    obtain ⟨changes', hav, hchanges'⟩ := storeOf_eq_some.mp hb
    rw [← hchanges, List.getElem?_map] at hp
    rw [← hchanges', List.getElem?_map] at hq
    obtain ⟨p', hp', rfl⟩ := Option.map_eq_some_iff.mp hp
    obtain ⟨q', hq', rfl⟩ := Option.map_eq_some_iff.mp hq
    exact h u v huv hv a.1 changes changes' hau (hid ▸ hav) i j p' q' hp' hq'

/-- The order keys of two authored events. -/
private theorem IsChange.orderKey_lt_iff {id' : ItemId}
    {changes' : List (Uuid × EntityEvent ItemEvent)} {i j : ℕ}
    {p q : Uuid × EntityEvent ItemEvent} {e e' : ItemDescriptor}
    (h : IsChange r d u id changes i p e) (h' : IsChange r d v id' changes' j q e') :
    orderKey e < orderKey e' ↔ p.2.modifiedAtMs < q.2.modifiedAtMs ∨
      p.2.modifiedAtMs = q.2.modifiedAtMs ∧ (i < j ∨ i = j ∧ p.1 < q.1) := by
  rw [OfflineSync.orderKey_lt_iff, h.time, h'.time, h.offset, h'.offset, h.eventId, h'.eventId,
    Nat.add_lt_add_iff_right, Nat.add_right_cancel_iff]

/-- Within a store the order keys increase. -/
private theorem ClockMonotone.pairwise_storedBatch (h : r.ClockMonotone d) (hu : u < r.length) :
    (r.storedBatch d u).Pairwise fun e e' =>
      e.entityId = e'.entityId → orderKey e < orderKey e' := by
  refine List.pairwise_iff_getElem.mpr fun i j hi hj hij _ => ?_
  obtain ⟨id, changes, p, hp⟩ := getElem?_storedBatch (List.getElem?_eq_getElem hi)
  obtain ⟨id', changes', q, hq⟩ := getElem?_storedBatch (List.getElem?_eq_getElem hj)
  obtain ⟨-, -, rfl⟩ := NetAction.author.inj (Option.some.inj (hp.act.symm.trans hq.act))
  refine (hp.orderKey_lt_iff hq).mpr ?_
  obtain ⟨hi', hpi⟩ := List.getElem?_eq_some_iff.mp hp.get
  obtain ⟨hj', hqj⟩ := List.getElem?_eq_some_iff.mp hq.get
  have hle := List.pairwise_iff_getElem.mp (h.of_act hu hp.act) i j hi' hj' hij
  rw [hpi, hqj] at hle
  rcases hle.lt_or_eq with hlt | heq
  · exact .inl hlt
  · exact .inr ⟨heq, .inl hij⟩

/-- When the stores of a device keep apart, its order keys increase. -/
private theorem ClockMonotone.pairwise_authoredBy (h : r.ClockMonotone d)
    (hapart : r.StoresApart d) : ((r.state r.length).authoredBy d).Pairwise
      (fun e e' => e.entityId = e'.entityId → orderKey e < orderKey e') := by
  rw [r.authoredBy_eq_flatMap d le_rfl, List.pairwise_flatMap]
  refine ⟨fun u hu => h.pairwise_storedBatch (List.mem_range.mp hu), ?_⟩
  refine List.pairwise_iff_getElem.mpr fun u v hu hv huv e he e' he' hid => ?_
  rw [List.length_range] at hu hv
  rw [List.getElem_range] at he he'
  obtain ⟨i, hi⟩ := List.mem_iff_getElem?.mp he
  obtain ⟨j, hj⟩ := List.mem_iff_getElem?.mp he'
  obtain ⟨id, changes, p, hp⟩ := getElem?_storedBatch hi
  obtain ⟨id', changes', q, hq⟩ := getElem?_storedBatch hj
  obtain rfl : id = id' := hp.entityId.symm.trans (hid.trans hq.entityId)
  refine (hp.orderKey_lt_iff hq).mpr ?_
  rcases storesApart_iff.mp hapart u v huv hv id changes changes' hp.act hq.act i j p q hp.get
    hq.get with hlt | ⟨heq, hij⟩
  · exact .inl hlt
  · exact .inr ⟨heq, .inl hij⟩

/-- When the ids fall from store to store, the order keys increase only if the stores keep
apart. -/
private theorem storesApart_of_pairwise_authoredBy
    (hfall : ∀ u v, u < v → v < r.length → ∀ id changes changes',
      r.act u = some (.author d id changes) → r.act v = some (.author d id changes') →
        ∀ p ∈ changes, ∀ q ∈ changes', q.1 < p.1)
    (hkeys : ((r.state r.length).authoredBy d).Pairwise
      (fun e e' => e.entityId = e'.entityId → orderKey e < orderKey e')) : r.StoresApart d := by
  rw [r.authoredBy_eq_flatMap d le_rfl, List.pairwise_flatMap] at hkeys
  refine storesApart_iff.mpr fun u v huv hv id changes changes' hau hav i j p q hp hq => ?_
  obtain ⟨e, he, hchange⟩ := exists_storedBatch hau hp
  obtain ⟨e', he', hchange'⟩ := exists_storedBatch hav hq
  -- the two batches are those of the times `u` and `v`
  have hlt := List.pairwise_iff_getElem.mp hkeys.2 u v (by simp; omega) (by simpa) huv
  rw [List.getElem_range, List.getElem_range] at hlt
  have hkey := hlt e he e' he' (hchange.entityId.trans hchange'.entityId.symm)
  rcases (hchange.orderKey_lt_iff hchange').mp hkey with htime | ⟨htime, hij | ⟨-, hid⟩⟩
  · exact .inl htime
  · exact .inr ⟨htime, hij⟩
  · have hfalls := hfall u v huv hv id changes changes' hau hav p (List.mem_of_getElem? hp) q
      (List.mem_of_getElem? hq)
    exact absurd hid hfalls.not_gt

/-! ### The same stores with other ids -/

/-- How many events the stores record. -/
def eventCount : List (ItemId × List (EntityEvent ItemEvent)) → ℕ
  | [] => 0
  | (_, events) :: stores => events.length + eventCount stores

private theorem length_authoredBy (r : NetRun ι) (d : ι) :
    ((r.state r.length).authoredBy d).length = eventCount (r.stores d) := by
  have hbatch : ∀ u, (r.storedBatch d u).length
      = ((storeOf d (r.act u)).map fun store => store.2.length).getD 0 := by
    intro u
    by_cases hact : ∃ id changes, r.act u = some (.author d id changes)
    · obtain ⟨id, changes, ha⟩ := hact
      rw [storedBatch_of_act ha, ha, storeOf_author]
      simp [DeviceEventLog.authoredBatch, ItemStorage.appendEvents]
    · have hnone : storeOf d (r.act u) = none := by
        refine Option.eq_none_iff_forall_ne_some.mpr fun store hstore => hact ?_
        obtain ⟨changes, ha, -⟩ := storeOf_eq_some.mp hstore
        exact ⟨store.1, changes, ha⟩
      rw [hnone, storedBatch]
      split
      next d' id changes ha =>
        rw [if_neg]
        · rfl
        · rintro rfl
          exact hact ⟨id, changes, ha⟩
      next => rfl
  rw [r.authoredBy_eq_flatMap d le_rfl, List.length_flatMap, stores]
  induction List.range r.length with
  | nil => rfl
  | cons u us ih =>
    rw [List.map_cons, List.sum_cons, ih, hbatch u, List.filterMap_cons]
    cases storeOf d (r.act u) with
    | none => exact Nat.zero_add _
    | some store => rfl

/-- Deal ids to the events of the stores, in order. -/
def deal : List (ItemId × List (EntityEvent ItemEvent)) → List Uuid →
    List (ItemId × List (Uuid × EntityEvent ItemEvent))
  | [], _ => []
  | (id, events) :: stores, ids =>
    (id, (ids.take events.length).zip events) :: deal stores (ids.drop events.length)

private theorem map_snd_deal {stores : List (ItemId × List (EntityEvent ItemEvent))}
    {ids : List Uuid} (h : eventCount stores ≤ ids.length) :
    (deal stores ids).map (fun batch => (batch.1, batch.2.map Prod.snd)) = stores := by
  induction stores generalizing ids with
  | nil => rfl
  | cons store stores ih =>
    obtain ⟨id, events⟩ := store
    have hcount : events.length + eventCount stores ≤ ids.length := h
    rw [deal, List.map_cons, ih (by rw [List.length_drop]; omega), List.map_snd_zip]
    rw [List.length_take]
    omega

private theorem map_fst_deal {stores : List (ItemId × List (EntityEvent ItemEvent))}
    {ids : List Uuid} (h : eventCount stores ≤ ids.length) :
    (deal stores ids).flatMap (fun batch => batch.2.map Prod.fst)
      = ids.take (eventCount stores) := by
  induction stores generalizing ids with
  | nil => rfl
  | cons store stores ih =>
    obtain ⟨id, events⟩ := store
    have hcount : events.length + eventCount stores ≤ ids.length := h
    have htake : eventCount ((id, events) :: stores) = events.length + eventCount stores := rfl
    rw [deal, List.flatMap_cons, ih (by rw [List.length_drop]; omega), htake, List.take_add,
      List.map_fst_zip]
    rw [List.length_take]
    omega

end NetRun

/-- What a device stores before it ever syncs, with ids that are all different, it can store. -/
private theorem Net.isSome_exec_author {s : Net ι} {d : ι} (hinv : s.Inv)
    (hround : s.round d = none) {batches : List (ItemId × List (Uuid × EntityEvent ItemEvent))}
    (hnd : (batches.flatMap fun batch => batch.2.map Prod.fst).Nodup)
    (hfresh : ∀ x ∈ batches.flatMap (fun batch => batch.2.map Prod.fst), x ∉ s.authoredIds) :
    ((Net.machine ι).stuttering.exec s
      (batches.map fun batch => some (.author d batch.1 batch.2))).isSome := by
  induction batches generalizing s with
  | nil => rfl
  | cons batch batches ih =>
    rw [List.flatMap_cons] at hnd hfresh
    obtain ⟨hbatch, hrest, hapart⟩ := List.nodup_append.mp hnd
    have hnew : ∀ x ∈ batch.2.map Prod.fst, x ∉ s.authoredIds :=
      fun x hx => hfresh x (List.mem_append_left _ hx)
    let events := ItemStorage.appendEvents (s.provider d).get batch.1 batch.2
    have hstep : (Net.machine ι).step s (.author d batch.1 batch.2)
        = some { s with toReplicas := s.toReplicas.author d events } := by
      simp only [Net.machine, Net.author, hround]
      exact if_pos ⟨hbatch, hnew⟩
    have hstored : s.toReplicas.Fresh events := Net.fresh_appendEvents hbatch hnew
    have hids := hinv.sound.authoredIds_author (d := d) hstored
    rw [ItemStorage.map_replicaEventId_appendEvents] at hids
    rw [List.map_cons, Machine.exec]
    change (((Net.machine ι).step s (.author d batch.1 batch.2)).bind _).isSome
    rw [hstep, Option.bind_some]
    refine ih (hinv.step (Net.step_cases hstep)) hround hrest fun x hx hmem => ?_
    change x ∈ (s.toReplicas.author d events).authoredIds at hmem
    rw [hids] at hmem
    rcases List.mem_append.mp hmem with hmem | hmem
    · exact hfresh x (List.mem_append_right _ hx) hmem
    · exact hapart x hmem x hx rfl

namespace NetRun

variable {r : NetRun ι} {d : ι} {t u v : ℕ} {id : ItemId}
  {changes : List (Uuid × EntityEvent ItemEvent)}

/-- There are enough ids in falling order: those of the run itself, the largest first. -/
private theorem exists_fallingIds (r : NetRun ι) (d : ι) :
    ∃ ids : List Uuid, ids.Pairwise (· > ·) ∧ eventCount (r.stores d) ≤ ids.length := by
  have hnd : (eventIds ((r.state r.length).authoredBy d)).Nodup :=
    (r.sound le_rfl).authored_nodup.sublist ((List.filter_sublist.map _).map _)
  let ids := (eventIds ((r.state r.length).authoredBy d)).insertionSort (· ≥ ·)
  have hperm : ids.Perm _ := List.perm_insertionSort _ _
  refine ⟨ids, (List.pairwise_insertionSort _ _).imp₂ (fun a b hab hne => ?_)
    (hperm.nodup_iff.mpr hnd), ?_⟩
  · exact lt_of_le_of_ne hab (Ne.symm hne)
  · rw [hperm.length_eq, eventIds, List.length_map, r.length_authoredBy]

/-- The stores of a run that does nothing but store. -/
private theorem stores_ofList {s₀ : Net ι} (h₀ : (Net.machine ι).stuttering.init s₀) {d : ι}
    {batches : List (ItemId × List (Uuid × EntityEvent ItemEvent))}
    (h : ((Net.machine ι).stuttering.exec s₀
      (batches.map fun batch => some (.author d batch.1 batch.2))).isSome) :
    stores (.ofList (Net.machine ι).stuttering s₀ h₀ _ none h) d
      = batches.map fun batch => (batch.1, batch.2.map Prod.snd) := by
  let actions : List (Option (NetAction ι)) :=
    batches.map fun batch => some (.author d batch.1 batch.2)
  have hrange : (List.range actions.length).map (actions.getD · none) = actions :=
    List.ext_getElem (by simp) fun i hi hi' => by simp [hi']
  have hstores : stores (.ofList (Net.machine ι).stuttering s₀ h₀ _ none h) d
      = ((List.range actions.length).map (actions.getD · none)).filterMap (storeOf d) := by
    rw [List.filterMap_map]
    rfl
  have hsome : (storeOf d) ∘ (fun batch : ItemId × List (Uuid × EntityEvent ItemEvent) =>
      some (.author d batch.1 batch.2)) = fun batch => some (batch.1, batch.2.map Prod.snd) := by
    funext batch
    exact storeOf_author d batch.1 batch.2
  rw [hstores, hrange, List.filterMap_map, hsome, List.filterMap_eq_map']

/-- **The same stores can be made with ids that fall from store to store.** -/
theorem exists_redrawn (r : NetRun ι) (d : ι) : ∃ r' : NetRun ι, r'.stores d = r.stores d ∧
    ∀ u v, u < v → v < r'.length → ∀ id changes changes',
      r'.act u = some (.author d id changes) → r'.act v = some (.author d id changes') →
        ∀ p ∈ changes, ∀ q ∈ changes', q.1 < p.1 := by
  obtain ⟨ids, hsorted, hcount⟩ := r.exists_fallingIds d
  let batches := deal (r.stores d) ids
  have hids : batches.flatMap (fun batch => batch.2.map Prod.fst)
      = ids.take (eventCount (r.stores d)) := map_fst_deal hcount
  have hfall : (batches.flatMap fun batch => batch.2.map Prod.fst).Pairwise (· > ·) :=
    hids ▸ hsorted.sublist (List.take_sublist _ _)
  have hexec : ((Net.machine ι).stuttering.exec (.start (r.state 0).provider)
      (batches.map fun batch => some (.author d batch.1 batch.2))).isSome :=
    Net.isSome_exec_author (.init (Net.init_start _)) rfl (hfall.imp fun h => ne_of_gt h)
      fun x _ hx => absurd hx List.not_mem_nil
  let r' : NetRun ι := .ofList (Net.machine ι).stuttering (.start (r.state 0).provider)
    (Net.init_start _) _ none hexec
  have hlength : r'.length = batches.length := List.length_map _
  have hact : ∀ u (hu : u < batches.length),
      r'.act u = some (.author d batches[u].1 batches[u].2) := by
    intro u hu
    change List.getD (batches.map _) u none = _
    rw [List.getD_eq_getElem _ _ (by rwa [List.length_map]), List.getElem_map]
  refine ⟨r', (stores_ofList _ hexec).trans (map_snd_deal hcount),
    fun u v huv hv id changes changes' hau hav p hp q hq => ?_⟩
  rw [hlength] at hv
  have hu : u < batches.length := huv.trans hv
  obtain ⟨-, rfl, rfl⟩ := NetAction.author.inj (Option.some.inj (hau.symm.trans (hact u hu)))
  obtain ⟨-, -, rfl⟩ := NetAction.author.inj (Option.some.inj (hav.symm.trans (hact v hv)))
  rw [List.pairwise_flatMap] at hfall
  exact List.pairwise_iff_getElem.mp hfall.2 u v hu hv huv p.1 (List.mem_map_of_mem hp) q.1
    (List.mem_map_of_mem hq)

/-- The canonical fold of an item takes its authored events by their order keys. -/
private theorem precedes_eventsOf (ht : t ≤ r.length) {e e' : ItemDescriptor}
    (hp : Precedes ((r.state t).authoredBy d) e e') (hid : e.entityId = e'.entityId)
    (hkey : orderKey e < orderKey e') :
    Precedes ((eventsOf ((r.state t).log d).entries e.entityId).map EventDescriptor.unstamped)
      e e' := by
  have hsub := ((r.sound ht).own_sublist d).subset
  rw [← eventsOf_map_unstamped]
  refine pair_sublist_sortByKey ?_ ?_ hkey
  · exact List.mem_filter.mpr ⟨hsub hp.mem_left, by simp⟩
  · exact List.mem_filter.mpr ⟨hsub hp.mem_right, by simp [hid]⟩

end NetRun

/-- **When the canonical order keeps the order of authoring.** Take a device whose clock does not
go back. Whatever ids are drawn for what it stores, any two events it authored on one item, in that
order, have increasing order keys, and the fold of its log takes them in that order, exactly when
its stores keep apart. -/
theorem authoring_order (r : SystemRun ι) (d : ι) (h : r.netRun.ClockMonotone d) :
    (∀ r' : NetRun ι, r'.stores d = r.netRun.stores d → ∀ t ≤ r'.length, ∀ e e',
      Precedes ((r'.state t).authoredBy d) e e' → e.entityId = e'.entityId →
        orderKey e < orderKey e' ∧
          Precedes ((eventsOf ((r'.state t).log d).entries e.entityId).map
            EventDescriptor.unstamped) e e') ↔
      r.netRun.StoresApart d := by
  constructor
  · intro hkeys
    obtain ⟨r', hstores, hfall⟩ := r.netRun.exists_redrawn d
    have hpairwise := List.pairwise_of_forall_sublist fun hp hid =>
      (hkeys r' hstores r'.length le_rfl _ _ hp hid).1
    have hapart := NetRun.storesApart_of_pairwise_authoredBy hfall hpairwise
    rwa [NetRun.StoresApart, hstores] at hapart
  · intro hapart r' hstores t ht e e' hp hid
    have hclock : r'.ClockMonotone d := by rwa [NetRun.ClockMonotone, hstores]
    have hapart' : r'.StoresApart d := by rwa [NetRun.StoresApart, hstores]
    -- what was authored up to `t` begins what is authored in the whole run
    have hmono : ((r'.state t).authoredBy d).Sublist ((r'.state r'.length).authoredBy d) :=
      ((r'.extends_of_le ht le_rfl).authored.sublist.filter _).map _
    have hkey := (hclock.pairwise_authoredBy hapart').forall_sublist (hp.sublist hmono) hid
    exact ⟨hkey, NetRun.precedes_eventsOf ht hp hid hkey⟩

/-- A device creates an item and edits it a millisecond later. -/
def nextMillisecond : List (Action Unit) :=
  [.create () ⟨7⟩ "milk" 2 100, .lockCreated () 0, .append () [9], .read (), .write (), .unlock (),
    .edit () ⟨7⟩ (.setQuantity 5) 101, .append () [4], .read (), .write (), .unlock ()]

def nextMillisecondRun : SystemRun Unit :=
  .ofList (fun _ => ⟨"A"⟩) nextMillisecond (.unlock ()) (by decide +kernel)

theorem authoring_order_nextMillisecond :
    Precedes
      ((eventsOf ((nextMillisecondRun.state 11).entries ()) ⟨7⟩).map EventDescriptor.unstamped)
      ⟨9, 1, 100, "A", none, none, ⟨7⟩, .created "milk" 2⟩
      ⟨4, 1, 101, "A", none, none, ⟨7⟩, .quantityChanged 5⟩ := by
  have hstores : nextMillisecondRun.netRun.stores ()
      = [(⟨7⟩, [⟨.created "milk" 2, 100⟩]), (⟨7⟩, [⟨.quantityChanged 5, 101⟩])] := by
    decide +kernel
  have hclock : nextMillisecondRun.netRun.ClockMonotone () := by
    rw [NetRun.ClockMonotone, hstores]
    simp
  have hapart : nextMillisecondRun.netRun.StoresApart () := by
    rw [NetRun.StoresApart, hstores, List.pairwise_pair]
    intro _ i j p q hp hq
    obtain rfl := List.mem_singleton.mp (List.mem_of_getElem? hp)
    obtain rfl := List.mem_singleton.mp (List.mem_of_getElem? hq)
    exact .inl (by decide)
  exact ((authoring_order nextMillisecondRun () hclock).mpr hapart nextMillisecondRun.netRun rfl 11
    (by decide) ⟨9, 1, 100, "A", none, none, ⟨7⟩, .created "milk" 2⟩
    ⟨4, 1, 101, "A", none, none, ⟨7⟩, .quantityChanged 5⟩ (by decide +kernel) rfl).2

/-- A device creates an item and edits it in the same millisecond. -/
def sameMillisecond : List (Action Unit) :=
  [.create () ⟨7⟩ "milk" 2 100, .lockCreated () 0, .append () [9], .read (), .write (), .unlock (),
    .edit () ⟨7⟩ (.setQuantity 5) 100, .append () [4], .read (), .write (), .unlock ()]

def sameMillisecondRun : SystemRun Unit :=
  .ofList (fun _ => ⟨"A"⟩) sameMillisecond (.unlock ()) (by decide +kernel)

/-- **A second store within a millisecond may be folded first.** The clock never goes back, but
the edit has the smaller key, and the row is left as the item was created. -/
theorem same_millisecond :
    ((sameMillisecondRun.state 11).net.authoredBy ()).Pairwise
        (fun e e' => e.replicaTimeMs ≤ e'.replicaTimeMs) ∧
      (¬ ∀ e e', Precedes ((sameMillisecondRun.state 11).net.authoredBy ()) e e' →
        e.entityId = e'.entityId → orderKey e < orderKey e') ∧
      (sameMillisecondRun.state 11).row () ⟨7⟩
        = some { id := ⟨7⟩, name := "milk", quantity := 2, lastModifiedMs := 100 } := by
  refine ⟨by decide +kernel, fun h => ?_, by decide +kernel⟩
  have hlt := h ⟨9, 1, 100, "A", none, none, ⟨7⟩, .created "milk" 2⟩
    ⟨4, 1, 100, "A", none, none, ⟨7⟩, .quantityChanged 5⟩ (by decide +kernel) rfl
  exact absurd hlt (by decide +kernel)

end OfflineSync
