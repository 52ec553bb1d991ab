import OfflineSync.Table
import OfflineSync.Backend
import OfflineSync.Causality
import Mathlib.Data.List.Perm.Basic

/-!
# Creations

When every event comes from the item service, no log ever holds an edit of an item without the
item's creation: the events of an item, in the order of the log, begin with its one `Created`
(`no_ghost_items`).

Two rules of the service are behind it. `create_item` draws a new item id, so an item is created
once. The other operations edit rows, and a row is the fold of events in the log, so whoever edits
an item has its creation in the log already: the creation is a cause of the edit
(`Replicas.Born`). Every log is closed under causes, whatever the interleaving and the network
do, and that carries the creation in front of the edit everywhere.
-/

namespace OfflineSync

open Dedup

/-- The event that brings an item into being. -/
def ItemEvent.isCreated : ItemEvent → Bool
  | .created _ _ => true
  | _ => false

private theorem Operation.isCreated_event (op : Operation) : op.event.isCreated = false := by
  cases op <;> rfl

/-- The events of an item among some entries, in their order, are one creation followed by
edits. -/
def BornOnce (entries : List ItemDescriptor) (id : ItemId) : Prop :=
  ∃ c rest, (entries.filter fun d => d.entityId = id) = c :: rest ∧
    c.payload.isCreated = true ∧ ∀ e ∈ rest, e.payload.isCreated = false

namespace Replicas

variable {ι : Type}

/-- Every authored event has the creation of its item among its causes, or is that creation, and
an item has one creation. -/
structure Born (s : Replicas ι) : Prop where
  once : ∀ d c d' c', (d, c) ∈ s.authored → (d', c') ∈ s.authored →
    c.payload.isCreated = true → c'.payload.isCreated = true → c.entityId = c'.entityId → c = c'
  first : ∀ d e, (d, e) ∈ s.authored → ∃ d' c, (d', c) ∈ s.authored ∧
    c.payload.isCreated = true ∧ c.entityId = e.entityId ∧
    (c = e ∨ s.Causal c.replicaEventId e.replicaEventId)

variable [DecidableEq ι] {s s' : Replicas ι} {id : ItemId}

/-- **A log closed under causes lists the creation of an item first.** -/
theorem Born.bornOnce (hb : s.Born) (h : s.Sound) {entries : List ItemDescriptor}
    (hnd : (eventIds entries).Nodup) (hclosed : Closed s.Causal (eventIds entries))
    (hknown : ∀ e ∈ entries, ∃ d, (d, e.unstamped) ∈ s.authored)
    (hid : ∃ e ∈ entries, e.entityId = id) : BornOnce entries id := by
  have hfilter : (eventIds (entries.filter fun d => d.entityId = id)).Nodup :=
    hnd.sublist (List.filter_sublist.map _)
  obtain ⟨c, rest, hsplit⟩ :
      ∃ c rest, (entries.filter fun d => d.entityId = id) = c :: rest := by
    obtain ⟨e, he, hide⟩ := hid
    refine List.exists_cons_of_ne_nil (List.ne_nil_of_mem (a := e) ?_)
    exact List.mem_filter.mpr ⟨he, by simpa using hide⟩
  have hmem : ∀ e ∈ c :: rest, e ∈ entries ∧ e.entityId = id := by
    intro e he
    rw [← hsplit] at he
    simpa using List.mem_filter.mp he
  rw [hsplit, eventIds_cons, List.nodup_cons] at hfilter
  obtain ⟨hc, hcid⟩ := hmem c List.mem_cons_self
  obtain ⟨dc, hauth⟩ := hknown c hc
  -- the first event of the item in the log has its creation in front of it, or is it
  have hcreated : c.payload.isCreated = true := by
    obtain ⟨d₀, c₀, hauth₀, hcreated₀, hid₀, heq | hcausal⟩ := hb.first dc c.unstamped hauth
    · rw [heq] at hcreated₀
      exact hcreated₀
    · exfalso
      have hp : Precedes (eventIds entries) c₀.replicaEventId c.replicaEventId :=
        hclosed _ _ hcausal (mem_eventIds_of_mem hc)
      obtain ⟨a, b, hab, ha, hbid⟩ := precedes_map_iff.mp hp
      obtain rfl := eq_of_replicaEventId_eq hnd hab.mem_right hc hbid
      obtain ⟨da, hautha⟩ := hknown a hab.mem_left
      obtain ⟨-, rfl⟩ := author_unique h.authored_nodup hautha hauth₀ ha
      have hpf := hab.filter (p := fun d => decide (d.entityId = id))
        (by simpa using hid₀.trans hcid) (by simpa using hcid)
      rw [hsplit] at hpf
      rcases precedes_cons_iff.mp hpf with ⟨-, hb⟩ | hpf
      · exact hfilter.1 (mem_eventIds_of_mem hb)
      · exact hfilter.1 (mem_eventIds_of_mem hpf.mem_right)
  refine ⟨c, rest, hsplit, hcreated, fun e he => ?_⟩
  by_contra hne
  obtain ⟨hmeme, hide⟩ := hmem e (List.mem_cons_of_mem _ he)
  obtain ⟨de, hauthe⟩ := hknown e hmeme
  have heq := hb.once dc _ de _ hauth hauthe hcreated (by simpa using hne) (hcid.trans hide.symm)
  have hids : c.unstamped.replicaEventId = e.unstamped.replicaEventId := by rw [heq]
  rw [EventDescriptor.unstamped_replicaEventId, EventDescriptor.unstamped_replicaEventId] at hids
  exact hfilter.1 (hids ▸ mem_eventIds_of_mem he)

omit [DecidableEq ι] in
/-- What is authored stays born while the logs grow. -/
private theorem Born.mono (hb : s.Born) (hext : s.Extends s') (hauth : s'.authored = s.authored) :
    s'.Born where
  once := by
    rw [hauth]
    exact hb.once
  first := by
    rw [hauth]
    intro d e he
    obtain ⟨d', c, hc, hcreated, hid, heq | hcausal⟩ := hb.first d e he
    · exact ⟨d', c, hc, hcreated, hid, .inl heq⟩
    · exact ⟨d', c, hc, hcreated, hid, .inr (hcausal.mono hext)⟩

/-- A batch of one event adds nothing else to what is authored. -/
private theorem Sound.mem_authored_or_eq (h : s.Sound) {d : ι} {events : List ItemAppend}
    {e : ItemDescriptor} (hf : s.Fresh events)
    (hone : DeviceEventLog.authoredBatch events = [e]) {d' : ι} {a : ItemDescriptor}
    (ha : (d', a) ∈ (s.author d events).authored) : (d', a) ∈ s.authored ∨ a = e := by
  rcases (h.mem_authored_author hf).mp ha with hold | ⟨-, hnew⟩
  · exact .inl hold
  · rw [hone] at hnew
    exact .inr (List.mem_singleton.mp hnew)

/-- A device authors one event: the creation of an item that has no events, or an edit of one
whose events its log holds. -/
private theorem Born.author (hb : s.Born) (h : s.Sound) {d : ι} {events : List ItemAppend}
    {e : ItemDescriptor} (hf : s.Fresh events)
    (hone : DeviceEventLog.authoredBatch events = [e])
    (hnew : e.payload.isCreated = true → ∀ d' a, (d', a) ∈ s.authored → a.entityId ≠ e.entityId)
    (hedit : e.payload.isCreated = false → ∃ d' a, (d', a) ∈ s.authored ∧
      a.entityId = e.entityId ∧ a.replicaEventId ∈ (s.log d).ids) : (s.author d events).Born := by
  have hext := h.extends_author (d := d) hf
  have hself : (d, e) ∈ (s.author d events).authored :=
    (h.mem_authored_author hf).mpr (.inr ⟨rfl, by rw [hone]; exact List.mem_cons_self⟩)
  have hids : e.replicaEventId ∈ events.map AppendEvent.replicaEventId := by
    rw [← DeviceEventLog.eventIds_authoredBatch, hone]
    exact List.mem_cons_self
  refine ⟨fun d₁ c d₂ c' hc hc' hcc hcc' hid => ?_, fun d' a ha => ?_⟩
  · rcases h.mem_authored_or_eq hf hone hc with hold | rfl
    · rcases h.mem_authored_or_eq hf hone hc' with hold' | rfl
      · exact hb.once d₁ c d₂ c' hold hold' hcc hcc' hid
      · exact absurd hid (hnew hcc' d₁ c hold)
    · rcases h.mem_authored_or_eq hf hone hc' with hold' | rfl
      · exact absurd hid.symm (hnew hcc d₂ c' hold')
      · rfl
  · rcases h.mem_authored_or_eq hf hone ha with hold | rfl
    · obtain ⟨dc, c, hc, hcreated, hid, hcausal⟩ := hb.first d' a hold
      exact ⟨dc, c, hext.authored.subset hc, hcreated, hid,
        hcausal.imp_right fun hcausal => hcausal.mono hext⟩
    · by_cases hcreated : a.payload.isCreated = true
      · exact ⟨d, a, hself, hcreated, rfl, .inl rfl⟩
      · -- the log that holds an event of the item holds the creation of the item too
        obtain ⟨db, b, hb', hbid, hlog⟩ := hedit (by simpa using hcreated)
        obtain ⟨dc, c, hc, hcc, hcid, hcausal⟩ := hb.first db b hb'
        have hclog : c.replicaEventId ∈ (s.log d).ids := by
          rcases hcausal with rfl | hcausal
          · exact hlog
          · exact (h.causal_log d _ _ hcausal hlog).mem_left
        exact ⟨dc, c, hext.authored.subset hc, hcc, hcid.trans hbid,
          .inr (h.causal_of_author hf hids (.inl hclog))⟩

end Replicas

/-! ### What the service does -/

namespace System

variable {ι : Type}

/-- The item a storage task is about to store as a new one. -/
def storingNew : Option StorageTask → List ItemId
  | some (.store item) => if item.uncommitted.any (·.event.isCreated) then [item.id] else []
  | _ => []

/-- The items created and not stored yet: those that wait for the storage lock, and the one that
its holder is about to store. -/
def unstored (s : System ι) (d : ι) : List ItemId :=
  (s.created d).map Item.id ++ storingNew (s.lock d)

/-- What a store of the service has at hand: one event, which creates its item or edits one that
the log has events of. -/
def Storing (s : System ι) (d : ι) (item : Item) : Prop :=
  ∃ ev, item.uncommitted = [ev] ∧ (ev.event.isCreated = false →
    ∃ d' e, (d', e) ∈ s.net.authored ∧ e.entityId = item.id ∧
      e.replicaEventId ∈ (s.net.log d).ids)

/-- What holds while the service alone authors events. -/
structure Served (s : System ι) : Prop where
  born : s.net.toReplicas.Born
  drawn : ∀ d e, (d, e) ∈ s.net.authored → e.entityId ∈ s.itemIds
  created : ∀ d, ∀ item ∈ s.created d, ∃ name quantity nowMs,
    item.uncommitted = [⟨.created name quantity, nowMs⟩]
  storing : ∀ d item, s.lock d = some (.store item) → s.Storing d item
  unstored_drawn : ∀ d, ∀ id ∈ s.unstored d, id ∈ s.itemIds
  unstored_new : ∀ d, ∀ id ∈ s.unstored d, ∀ d' e, (d', e) ∈ s.net.authored → e.entityId ≠ id
  unstored_nodup : ∀ d, (s.unstored d).Nodup
  unstored_disjoint : ∀ d d', d ≠ d' → ∀ id ∈ s.unstored d, id ∉ s.unstored d'

variable {s s' : System ι}

private theorem Served.init (h : s.Init) : s.Served := by
  obtain ⟨⟨-, hauth, -, -⟩, hids, hd⟩ := h
  have hunstored : ∀ d, s.unstored d = [] := by
    intro d
    simp [unstored, storingNew, (hd d).2.1, (hd d).2.2.1]
  constructor
  · exact ⟨by simp [hauth], by simp [hauth]⟩
  · simp [hauth]
  · simp [hd]
  · simp [hd]
  · simp [hunstored]
  · simp [hunstored]
  · simp [hunstored]
  · simp [hunstored]

private theorem Storing.mono {d : ι} {item : Item} (h : s.Storing d item)
    (hext : s.net.toReplicas.Extends s'.net.toReplicas) : s'.Storing d item := by
  obtain ⟨ev, hev, hedit⟩ := h
  refine ⟨ev, hev, fun hcreated => ?_⟩
  obtain ⟨d', e, he, hid, hlog⟩ := hedit hcreated
  exact ⟨d', e, hext.authored.subset he, hid, (hext.log d).subset hlog⟩

/-- A step that authors nothing and creates nothing. -/
private theorem Served.of_same (h : s.Served)
    (hext : s.net.toReplicas.Extends s'.net.toReplicas)
    (hauth : s'.net.authored = s.net.authored) (hids : s'.itemIds = s.itemIds)
    (hcreated : ∀ d, ∀ item ∈ s'.created d, item ∈ s.created d)
    (hunstored : ∀ d, (s'.unstored d).Perm (s.unstored d))
    (hstoring : ∀ d item, s'.lock d = some (.store item) →
      s.lock d = some (.store item) ∨ s.Storing d item) : s'.Served where
  born := h.born.mono hext hauth
  drawn := by
    rw [hauth, hids]
    exact h.drawn
  created := fun d item hitem => h.created d item (hcreated d item hitem)
  storing := by
    intro d item hlock
    rcases hstoring d item hlock with hold | hnew
    · exact (h.storing d item hold).mono hext
    · exact hnew.mono hext
  unstored_drawn := by
    intro d id hid
    rw [hids]
    exact h.unstored_drawn d id ((hunstored d).mem_iff.mp hid)
  unstored_new := by
    intro d id hid
    rw [hauth]
    exact h.unstored_new d id ((hunstored d).mem_iff.mp hid)
  unstored_nodup := fun d => (hunstored d).nodup_iff.mpr (h.unstored_nodup d)
  unstored_disjoint := fun d d' hne id hid hid' =>
    h.unstored_disjoint d d' hne id ((hunstored d).mem_iff.mp hid) ((hunstored d').mem_iff.mp hid')

/-- The holder of the storage lock is about to store a new item. -/
private theorem mem_unstored_of_held {d : ι} {item : Item} {ev : EntityEvent ItemEvent}
    (held : s.lock d = some (.store item)) (hev : item.uncommitted = [ev])
    (hcreated : ev.event.isCreated = true) : item.id ∈ s.unstored d := by
  simp [unstored, storingNew, held, hev, hcreated]

variable [DecidableEq ι]

private theorem unstored_setLock_of_ne (s : System ι) {d e : ι} (task : Option StorageTask)
    (he : e ≠ d) : (s.setLock d task).unstored e = s.unstored e := by
  simp only [unstored, System.setLock, Function.update_of_ne he]

/-- After a store only the items that wait for the storage lock are not stored yet. -/
private theorem unstored_project_sublist (s : System ι) (d : ι) (ids : List ItemId) (e : ι) :
    ((s.setLock d (some (.project ids))).unstored e).Sublist (s.unstored e) := by
  by_cases he : e = d
  · subst he
    simp only [unstored, lock_setLock_self, storingNew, List.append_nil]
    exact List.sublist_append_left _ _
  · rw [unstored_setLock_of_ne s _ he]

/-- The item just stored is not among those still to be stored. -/
private theorem Served.notMem_unstored (h : s.Served) {d : ι} {item : Item}
    {ev : EntityEvent ItemEvent}
    (held : s.lock d = some (.store item)) (hev : item.uncommitted = [ev])
    (hcreated : ev.event.isCreated = true) (ids : List ItemId) (e : ι) :
    item.id ∉ (s.setLock d (some (.project ids))).unstored e := by
  intro hid
  by_cases he : e = d
  · subst he
    have hnd := h.unstored_nodup e
    rw [unstored, held, storingNew, hev, if_pos (by simpa using hcreated)] at hnd
    simp only [unstored, lock_setLock_self, storingNew, List.append_nil] at hid
    exact (List.nodup_append.mp hnd).2.2 _ hid _ List.mem_cons_self rfl
  · rw [unstored_setLock_of_ne s _ he] at hid
    exact h.unstored_disjoint e d he item.id hid (mem_unstored_of_held held hev hcreated)

/-- The storage lock moves on and nothing is stored. -/
private theorem Served.setLock (h : s.Served) {d : ι} {task : Option StorageTask}
    (hnew : storingNew task = storingNew (s.lock d))
    (hstoring : ∀ item, task = some (.store item) → s.Storing d item) :
    (s.setLock d task).Served := by
  refine h.of_same (.refl _) rfl rfl (fun _ _ hitem => hitem) (fun e => ?_) fun e item hlock => ?_
  · by_cases he : e = d
    · subst he
      rw [unstored, lock_setLock_self, hnew]
      exact .refl _
    · rw [unstored_setLock_of_ne s _ he]
  · by_cases he : e = d
    · subst he
      rw [lock_setLock_self] at hlock
      exact .inr (hstoring item hlock)
    · simp only [System.setLock, Function.update_of_ne he] at hlock
      exact .inl hlock

/-- An item is created: its id is new. -/
private theorem Served.create (h : s.Served) {d : ι} {id : ItemId} (fresh : id ∉ s.itemIds)
    (name : String) (quantity nowMs : ℤ) : System.Served { s with
      created := Function.update s.created d (Item.create id name quantity nowMs :: s.created d)
      itemIds := id :: s.itemIds } := by
  set s' : System ι := { s with
    created := Function.update s.created d (Item.create id name quantity nowMs :: s.created d)
    itemIds := id :: s.itemIds } with hs'
  have hself : s'.unstored d = id :: s.unstored d := by
    rw [unstored, hs']
    simp only [Function.update_self, List.map_cons, List.cons_append]
    rfl
  have hother : ∀ e, e ≠ d → s'.unstored e = s.unstored e := by
    intro e he
    rw [unstored, hs']
    simp only [Function.update_of_ne he]
    rfl
  have hmem : ∀ e x, x ∈ s'.unstored e → x = id ∧ e = d ∨ x ∈ s.unstored e := by
    intro e x hx
    by_cases he : e = d
    · subst he
      rw [hself] at hx
      exact (List.mem_cons.mp hx).imp_left fun hx => ⟨hx, rfl⟩
    · rw [hother e he] at hx
      exact .inr hx
  exact {
    born := h.born
    drawn := fun d' e he => List.mem_cons_of_mem _ (h.drawn d' e he)
    created := by
      intro e item hitem
      by_cases he : e = d
      · subst he
        rw [hs'] at hitem
        simp only [Function.update_self] at hitem
        rcases List.mem_cons.mp hitem with rfl | hitem
        · exact ⟨name, quantity, nowMs, Item.newEvent_uncommitted _ _⟩
        · exact h.created e item hitem
      · rw [hs'] at hitem
        simp only [Function.update_of_ne he] at hitem
        exact h.created e item hitem
    storing := h.storing
    unstored_drawn := by
      intro e x hx
      rcases hmem e x hx with ⟨rfl, -⟩ | hx
      · exact List.mem_cons_self
      · exact List.mem_cons_of_mem _ (h.unstored_drawn e x hx)
    unstored_new := by
      intro e x hx d' a ha hax
      rcases hmem e x hx with ⟨rfl, -⟩ | hx
      · exact fresh (hax ▸ h.drawn d' a ha)
      · exact h.unstored_new e x hx d' a ha hax
    unstored_nodup := by
      intro e
      by_cases he : e = d
      · subst he
        rw [hself]
        exact List.nodup_cons.mpr
          ⟨fun hid => fresh (h.unstored_drawn e id hid), h.unstored_nodup e⟩
      · rw [hother e he]
        exact h.unstored_nodup e
    unstored_disjoint := by
      intro e e' hne x hx hx'
      rcases hmem e x hx with ⟨hxid, hed⟩ | hx
      · rcases hmem e' x hx' with ⟨-, hed'⟩ | hx'
        · exact hne (hed.trans hed'.symm)
        · exact fresh (hxid ▸ h.unstored_drawn e' x hx')
      · rcases hmem e' x hx' with ⟨hxid, -⟩ | hx'
        · exact fresh (hxid ▸ h.unstored_drawn e x hx)
        · exact h.unstored_disjoint e e' hne x hx hx' }

/-- A created item gets the storage lock. -/
private theorem Served.lockCreated (h : s.Served) {d : ι} {k : ℕ} {item : Item}
    (free : s.lock d = none) (mem : (s.created d)[k]? = some item) :
    System.Served { s.setLock d (some (.store item)) with
      created := Function.update s.created d ((s.created d).eraseIdx k) } := by
  obtain ⟨name, quantity, nowMs, hitem⟩ := h.created d item (List.mem_of_getElem? mem)
  obtain ⟨hk, hget⟩ := List.getElem?_eq_some_iff.mp mem
  refine h.of_same (.refl _) rfl rfl (fun e item' hitem' => ?_) (fun e => ?_)
    fun e item' hlock => ?_
  · by_cases he : e = d
    · subst he
      simp only [Function.update_self] at hitem'
      exact List.mem_of_mem_eraseIdx hitem'
    · simpa only [Function.update_of_ne he] using hitem'
  · by_cases he : e = d
    · subst he
      -- the item has moved from the front of the lock to its holder
      have hperm := (List.getElem_cons_eraseIdx_perm hk).map Item.id
      rw [hget, List.map_cons] at hperm
      simp only [unstored, storingNew, System.setLock, Function.update_self, hitem, free,
        List.any_cons, ItemEvent.isCreated, Bool.true_or, if_true, List.append_nil]
      exact List.perm_append_singleton _ _ |>.trans hperm
    · simp only [unstored, System.setLock, Function.update_of_ne he]
      exact .refl _
  · by_cases he : e = d
    · subst he
      simp only [System.setLock, Function.update_self] at hlock
      obtain rfl := StorageTask.store.inj (Option.some.inj hlock)
      exact .inr ⟨_, hitem, fun hne => by cases hne⟩
    · simp only [System.setLock, Function.update_of_ne he] at hlock
      exact .inl hlock

/-- **A store of the service keeps every edit behind its creation.** -/
theorem Served.append (h : s.Served) (hs : s.net.Inv) {d : ι} {item : Item}
    {eventIds : List Uuid} {net : Net ι} (held : s.lock d = some (.store item))
    (length : eventIds.length = item.uncommitted.length)
    (author : s.net.author d item.id (eventIds.zip item.uncommitted) = some net) :
    System.Served { s.setLock d (some (.project [item.id])) with net } := by
  obtain ⟨ev, hev, hedit⟩ := h.storing d item held
  obtain ⟨x, rfl⟩ : ∃ x, eventIds = [x] := by
    rw [hev] at length
    exact List.length_eq_one_iff.mp length
  rw [hev] at author
  have hstep : Net.Step s.net (.author d item.id [(x, ev)]) net := Net.step_cases author
  cases hstep with
  | author unlocked hnd hfresh =>
    set events := ItemStorage.appendEvents (s.net.provider d).get item.id [(x, ev)] with hevents
    have hf : s.net.Fresh events := Net.fresh_appendEvents hnd hfresh
    obtain ⟨e, hone, hid, hpayload⟩ : ∃ e, DeviceEventLog.authoredBatch events = [e] ∧
        e.entityId = item.id ∧ e.payload = ev.event := ⟨_, rfl, rfl, rfl⟩
    have hext := hs.sound.extends_author (d := d) hf
    -- a new item is taken from the items that are not stored yet
    have hpending : ev.event.isCreated = true → item.id ∈ s.unstored d :=
      mem_unstored_of_held held hev
    have hunstored : ∀ e', (System.unstored { s.setLock d (some (.project [item.id])) with
        net := { s.net with toReplicas := s.net.toReplicas.author d events } } e').Sublist
          (s.unstored e') := unstored_project_sublist s d [item.id]
    have hborn : (s.net.toReplicas.author d events).Born := by
      refine h.born.author hs.sound hf hone (fun hcreated d' a ha => ?_) fun hne => ?_
      · rw [hid]
        exact h.unstored_new d item.id (hpending (hpayload ▸ hcreated)) d' a ha
      · rw [hid]
        exact hedit (hpayload ▸ hne)
    exact {
      born := hborn
      created := h.created
      drawn := by
        intro d' a ha
        rcases hs.sound.mem_authored_or_eq hf hone ha with ha | rfl
        · exact h.drawn d' a ha
        · rw [hid]
          by_cases hcreated : ev.event.isCreated = true
          · exact h.unstored_drawn d item.id (hpending hcreated)
          · obtain ⟨db, b, hb, hbid, -⟩ := hedit (by simpa using hcreated)
            exact hbid ▸ h.drawn db b hb
      storing := by
        intro e' item' hlock
        by_cases he : e' = d
        · subst he
          simp only [System.setLock, Function.update_self] at hlock
          cases hlock
        · simp only [System.setLock, Function.update_of_ne he] at hlock
          exact (h.storing e' item' hlock).mono hext
      unstored_drawn := fun e' y hy => h.unstored_drawn e' y ((hunstored e').subset hy)
      unstored_new := by
        intro e' y hy d' a ha hay
        rcases hs.sound.mem_authored_or_eq hf hone ha with ha | rfl
        · exact h.unstored_new e' y ((hunstored e').subset hy) d' a ha hay
        · obtain rfl : item.id = y := hid.symm.trans hay
          by_cases hcreated : ev.event.isCreated = true
          · exact h.notMem_unstored held hev hcreated [item.id] e' hy
          · obtain ⟨db, b, hb, hbid, -⟩ := hedit (by simpa using hcreated)
            exact h.unstored_new e' item.id ((hunstored e').subset hy) db b hb hbid
      unstored_nodup := fun e' => (h.unstored_nodup e').sublist (hunstored e')
      unstored_disjoint := fun e₁ e₂ hne y hy hy' =>
        h.unstored_disjoint e₁ e₂ hne y ((hunstored e₁).subset hy) ((hunstored e₂).subset hy') }

/-- Every step of the service preserves `Served`. -/
private theorem Served.step (h : s.Served) (hs : s.net.Inv) {a : Action ι} (hstep : Step s a s')
    (hservice : ∀ d item, a ≠ .store d item)
    (hrow : ∀ d id item, s.row d id = some item → ∃ d' e, (d', e) ∈ s.net.authored ∧
      e.entityId = id ∧ e.replicaEventId ∈ (s.net.log d).ids)
    (hid : ∀ d id item, s.row d id = some item → item.id = id ∧ item.uncommitted = []) :
    s'.Served := by
  cases hstep with
  | @sync a net step =>
    have hnet : Net.Step s.net (.sync a) net := Net.step_cases step
    have hauth : net.authored = s.net.authored := by
      cases hnet <;> rfl
    exact h.of_same (hs.extends_of_step hnet) hauth rfl (fun _ _ hitem => hitem)
      (fun _ => .refl _) fun _ _ hlock => .inl hlock
  | create fresh => exact h.create fresh _ _ _
  | lockCreated free mem => exact h.lockCreated free mem
  | @edit d id op nowMs item free found =>
    -- the item edited has a row, so its events are in the log
    obtain ⟨hitem, hunc⟩ := hid d id item found
    have hstored : (op.apply item nowMs).uncommitted = [⟨op.event, nowMs⟩] := by
      rw [op.apply_eq, Item.newEvent_uncommitted, hunc, List.nil_append]
    refine h.setLock ?_ fun item' hitem' => ?_
    · simp [storingNew, free, hstored, op.isCreated_event]
    · obtain rfl := StorageTask.store.inj (Option.some.inj hitem')
      refine ⟨_, hstored, fun _ => ?_⟩
      rw [op.apply_eq, Item.newEvent_id, hitem]
      exact hrow d id item found
  | editMissing => exact h
  | store => exact absurd rfl (hservice _ _)
  | append held length author => exact h.append hs held length author
  | read held | unlock held =>
    exact h.setLock (by rw [held]; rfl) fun _ hlock => by cases hlock
  | @write d id events ids held =>
    have hlock : (s.setLock d (some (.project ids))).Served :=
      h.setLock (by rw [held]; rfl) fun _ hlock => by cases hlock
    exact ⟨hlock.born, hlock.drawn, hlock.created, hlock.storing, hlock.unstored_drawn,
      hlock.unstored_new, hlock.unstored_nodup, hlock.unstored_disjoint⟩
  | @lockRebuild d k ids free mem =>
    have hlock : (s.setLock d (some (.project ids))).Served :=
      h.setLock (by rw [free]; rfl) fun _ hlock => by cases hlock
    exact ⟨hlock.born, hlock.drawn, hlock.created, hlock.storing, hlock.unstored_drawn,
      hlock.unstored_new, hlock.unstored_nodup, hlock.unstored_disjoint⟩

end System

namespace SystemRun

variable {ι : Type} [DecidableEq ι] {r : SystemRun ι} {t : ℕ}

/-- Events come from the item service alone: no caller stores an item it holds in memory. -/
def ServiceOnly (r : SystemRun ι) : Prop :=
  ∀ t < r.length, ∀ d item, r.act t ≠ .store d item

/-- An item with a row has events in the log. -/
private theorem exists_authored_of_row (ht : t ≤ r.length) {d : ι} {id : ItemId} {item : Item}
    (hrow : (r.state t).row d id = some item) : ∃ d' e, (d', e) ∈ (r.state t).net.authored ∧
      e.entityId = id ∧ e.replicaEventId ∈ ((r.state t).net.log d).ids := by
  have hle := r.version_le d t id
  have hext := r.netRun.extends_of_le hle ht
  obtain ⟨e, he, hid⟩ := exists_mem_of_rowAt ((r.row_eq d ht id).symm.trans hrow)
  obtain ⟨d', hauth⟩ := (r.netRun.sound (hle.trans ht)).log_authored he
  have hids : e.replicaEventId ∈ ((r.state (r.version d t id)).net.log d).ids :=
    mem_eventIds_of_mem he
  exact ⟨d', e.unstamped, hext.authored.subset hauth, hid, (hext.log d).subset hids⟩

theorem ServiceOnly.served (h : r.ServiceOnly) (ht : t ≤ r.length) : (r.state t).Served := by
  refine r.le_induction (P := fun t => (r.state t).Served) (.init r.init_state)
    (fun t _ ht ih => ?_) t (Nat.zero_le t) ht
  exact ih.step (r.netRun.inv ht.le) (r.step_cases ht) (h t ht)
    (fun d id item hrow => exists_authored_of_row ht.le hrow)
    fun d id item hrow => id_of_row ht.le hrow

end SystemRun

/-- **No ghost items.** While the item service alone authors events, on any number of devices and
whatever the network does: in every log that has events of an item they begin, in the order of the
log, with the one creation of the item. Every row, of a device or of the server, is the fold of
such a log. -/
theorem no_ghost_items {ι : Type} [DecidableEq ι] (r : SystemRun ι) (h : r.ServiceOnly) :
    (∀ t ≤ r.length, ∀ id,
      (∀ d, (∃ e ∈ (r.state t).entries d, e.entityId = id) →
        BornOnce ((r.state t).entries d) id) ∧
      ((∃ e ∈ (r.state t).net.server.entries, e.entityId = id) →
        BornOnce (r.state t).net.server.entries id)) ∧
    (∀ t ≤ r.length, ∀ d id item, (r.state t).row d id = some item → ∃ v ≤ t,
      (r.state t).row d id = rowAt ((r.state v).entries d) id ∧
        BornOnce ((r.state v).entries d) id) ∧
    ∀ b : BackendRun, (∀ t ≤ b.length, ∃ u ≤ r.length, (b.state t).log = (r.state u).net.server) →
      ∀ t ≤ b.length, ∀ id item, (b.state t).row id = some item → ∃ v ≤ t,
        (b.state t).row id = rowAt (b.state v).log.entries id ∧
          BornOnce (b.state v).log.entries id := by
  have hlog : ∀ t ≤ r.length, ∀ d id, (∃ e ∈ (r.state t).entries d, e.entityId = id) →
      BornOnce ((r.state t).entries d) id := fun t ht d id hid =>
    (h.served ht).born.bornOnce (r.netRun.sound ht) ((r.netRun.sound ht).log_nodup d)
      ((r.netRun.sound ht).causal_log d) (fun e he => (r.netRun.sound ht).log_authored he) hid
  have hserver : ∀ t ≤ r.length, ∀ id, (∃ e ∈ (r.state t).net.server.entries, e.entityId = id) →
      BornOnce (r.state t).net.server.entries id := fun t ht id hid =>
    (h.served ht).born.bornOnce (r.netRun.sound ht) (r.netRun.sound ht).server_wf.nodup
      (r.netRun.sound ht).causal_server (r.netRun.sound ht).server_known hid
  refine ⟨fun t ht id => ⟨fun d hid => hlog t ht d id hid, hserver t ht id⟩,
    fun t ht d id item hrow => ?_, fun b hb t ht id item hrow => ?_⟩
  · have hle := r.version_le d t id
    have hv := r.row_eq d ht id
    exact ⟨r.version d t id, hle, hv, hlog _ (hle.trans ht) d id
      (exists_mem_of_rowAt (hv.symm.trans hrow))⟩
  · have hle := b.version_le t id
    obtain ⟨u, hu, hsame⟩ := hb (b.version t id) (hle.trans ht)
    have hv := b.row_eq ht id
    refine ⟨b.version t id, hle, hv, ?_⟩
    rw [hsame] at hv ⊢
    exact hserver u hu id (exists_mem_of_rowAt (hv.symm.trans hrow))

/-- A device creates an item, renames it and pushes both events. -/
def renamedItem : List (Action Unit) :=
  [.create () ⟨7⟩ "milk" 2 100, .lockCreated () 0, .append () [1], .read (), .write (), .unlock (),
    .edit () ⟨7⟩ (.rename "oat milk") 200, .append () [2], .read (), .write (), .unlock (),
    .sync (.beginRound () 500), .sync (.send ()), .sync (.handle () fun _ => 0)]

def renamedItemRun : SystemRun Unit :=
  .ofList (fun _ => ⟨"A"⟩) renamedItem (.unlock ()) (by decide +kernel)

/-- The handler of that push. -/
def renamedItemPost : List BackendAction :=
  [.post [⟨1, ⟨7⟩, .created "milk" 2, "A", 100, some 1, none, none⟩,
      ⟨2, ⟨7⟩, .renamed "oat milk", "A", 200, some 1, none, none⟩] fun _ => 0,
    .lock 0, .read, .write]

def renamedItemPostRun : BackendRun :=
  Machine.Run.ofList Backend.machine .start rfl renamedItemPost .respond (by decide +kernel)

theorem no_ghost_items_renamedItem :
    BornOnce ((renamedItemRun.state 14).entries ()) ⟨7⟩ ∧
      BornOnce (renamedItemRun.state 14).net.server.entries ⟨7⟩ ∧
      ∃ v ≤ 4, (renamedItemPostRun.state 4).row ⟨7⟩
        = rowAt (renamedItemPostRun.state v).log.entries ⟨7⟩ ∧
          BornOnce (renamedItemPostRun.state v).log.entries ⟨7⟩ := by
  obtain ⟨hlogs, -, hserver⟩ := no_ghost_items renamedItemRun fun t ht d item hstore => by
    have ht : t < 14 := ht
    interval_cases t <;> cases hstore
  obtain ⟨hlog, hstream⟩ := hlogs 14 (by decide) ⟨7⟩
  refine ⟨hlog () (by decide +kernel), hstream (by decide +kernel),
    hserver renamedItemPostRun (fun t ht => ?_) 4 (by decide) ⟨7⟩
      { id := ⟨7⟩, name := "oat milk", quantity := 2, lastModifiedMs := 200 }
      (by decide +kernel)⟩
  have ht : t ≤ 4 := ht
  interval_cases t
  · exact ⟨0, by decide, by decide +kernel⟩
  all_goals exact ⟨14, by decide, by decide +kernel⟩

end OfflineSync
