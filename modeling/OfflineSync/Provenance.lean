import OfflineSync.Creation
import OfflineSync.Fold

/-!
# Where the data comes from

Nothing on any device is made up on the way. While the service alone authors events, each event that
is stored anywhere, in the log of a device or at the server, was asked for by one call of the app on
one device: it carries the item of that call, its change, the clock reading it was made at and the
replica id of that device. Two events never come from one call, and every field a row shows was
given by such a call (`values_from_calls`).

The item operations change their item in memory before they store it, and what is stored is what
they recorded there (`uncommitted`). So the invariant (`Accounted`) follows the calls through the
storage lock: who holds the lock to store an item stores the one change of its call, and no event
comes from that call yet.
-/

namespace OfflineSync

/-! ### What a row shows is in some event -/

private theorem untilDeletion_eq_self {events : List ItemDescriptor}
    (h : ∀ e ∈ events, e.payload ≠ .deleted) : untilDeletion events = events := by
  induction events with
  | nil => rfl
  | cons e events ih =>
    rw [untilDeletion, if_neg (h e List.mem_cons_self),
      ih fun a ha => h a (List.mem_cons_of_mem e ha)]

/-- **Each field of a row is written by some event of its history**; only a note may be the absence
of one. -/
theorem exists_mem_of_fields {events : List ItemDescriptor} {id : ItemId} {item : Item}
    (hid : ∀ e ∈ events, e.entityId = id) (hrow : rowOf events = some item)
    (hborn : ∃ e ∈ events, e.payload.isCreated = true) :
    (∃ e ∈ events, e.payload.name? = some item.name) ∧
      (∃ e ∈ events, e.payload.quantity? = some item.quantity) ∧
      (item.note = none ∨ ∃ e ∈ events, e.payload.note? = some item.note) ∧
      ∃ e ∈ events, e.replicaTimeMs = item.lastModifiedMs := by
  obtain ⟨c, hc, hcreated⟩ := hborn
  obtain ⟨name, quantity, hpayload⟩ : ∃ name quantity, c.payload = .created name quantity := by
    cases h : c.payload with
    | created name quantity => exact ⟨name, quantity, rfl⟩
    | _ => simp [h, ItemEvent.isCreated] at hcreated
  have hne : events ≠ [] := List.ne_nil_of_mem hc
  rw [rowOf, if_neg hne, Item.buildFromHistory_eq_foldl hne hid,
    Item.foldl_applyDescriptor_eq rfl] at hrow
  dsimp only at hrow
  split_ifs at hrow with hdel
  -- a row is not deleted, so nothing cuts its history
  rw [untilDeletion_eq_self fun e he hd => hdel (by simpa using ⟨e, he, hd⟩)] at hrow
  obtain rfl := Option.some.inj hrow
  refine ⟨?_, ?_, ?_, ?_⟩
  · refine (lastWrite_cases (fun e : ItemDescriptor => e.payload.name?) "" events).resolve_right ?_
    rintro ⟨hnone, -⟩
    have hwrites := hnone c hc
    simp [hpayload, ItemEvent.name?] at hwrites
  · refine (lastWrite_cases (fun e : ItemDescriptor => e.payload.quantity?) 0 events).resolve_right
      ?_
    rintro ⟨hnone, -⟩
    have hwrites := hnone c hc
    simp [hpayload, ItemEvent.quantity?] at hwrites
  · rcases lastWrite_cases (fun e : ItemDescriptor => e.payload.note?) none events with hw | ⟨-, hv⟩
    · exact .inr hw
    · exact .inl hv
  · rcases lastWrite_cases (fun e : ItemDescriptor => some e.replicaTimeMs) 0 events with
      ⟨e, he, hw⟩ | ⟨hnone, -⟩
    · exact ⟨e, he, Option.some.inj hw⟩
    · cases hnone c hc

namespace System

variable {ι : Type} [DecidableEq ι] {s s' : System ι} {a : Action ι} {d : ι}

/-- Events are authored by the append of a store. -/
private theorem Step.authored_eq (h : Step s a s') (ha : ∀ d eventIds, a ≠ .append d eventIds) :
    s'.net.authored = s.net.authored := by
  cases h with
  | @sync a net step =>
    have hnet : Net.Step s.net (.sync a) net := Net.step_cases step
    cases hnet <;> rfl
  | append => exact absurd rfl (ha _ _)
  | _ => rfl

/-- How a task that is about to store comes to hold the storage lock. -/
inductive StartsStore (s : System ι) (d : ι) : Action ι → Item → Prop
  | lockCreated {k item} (mem : item ∈ s.created d) :
      StartsStore s d (.lockCreated d k) item
  | edit {id op nowMs item} (found : s.row d id = some item) :
      StartsStore s d (.edit d id op nowMs) (op.apply item nowMs)
  | store {item} : StartsStore s d (.store d item) item

private theorem Step.startsStore (h : Step s a s') {item : Item}
    (hlock : s'.lock d = some (.store item)) :
    s.lock d = some (.store item) ∨ StartsStore s d a item := by
  by_cases hd : a.device = some d
  · cases h with
    | sync | create | editMissing => exact .inl hlock
    | lockCreated free mem =>
      obtain rfl := Option.some.inj hd
      simp only [System.setLock, Function.update_self] at hlock
      obtain rfl := StorageTask.store.inj (Option.some.inj hlock)
      exact .inr (.lockCreated (List.mem_of_getElem? mem))
    | edit free found =>
      obtain rfl := Option.some.inj hd
      simp only [System.setLock, Function.update_self] at hlock
      obtain rfl := StorageTask.store.inj (Option.some.inj hlock)
      exact .inr (.edit found)
    | store free =>
      obtain rfl := Option.some.inj hd
      simp only [System.setLock, Function.update_self] at hlock
      obtain rfl := StorageTask.store.inj (Option.some.inj hlock)
      exact .inr .store
    | append | read | write | unlock | lockRebuild =>
      obtain rfl := Option.some.inj hd
      simp only [System.setLock, Function.update_self] at hlock
      cases hlock
  · exact .inl ((h.frame hd).2.1 ▸ hlock)

end System

namespace SystemRun

variable {ι : Type} [DecidableEq ι] {r : SystemRun ι} {call : Uuid → ℕ} {t u : ℕ} {d d' : ι}

/-! ### The calls of the app -/

/-- The call of the app at time `u`: it asks device `d` for an event on an item. -/
inductive Asks (r : SystemRun ι) (u : ℕ) (d : ι) : ItemId → ItemEvent → ℤ → Prop
  | create {id name quantity nowMs} (act : r.act u = .create d id name quantity nowMs) :
      Asks r u d id (.created name quantity) nowMs
  | edit {id op nowMs} (act : r.act u = .edit d id op nowMs) : Asks r u d id op.event nowMs

/-- A call is made on one device, about one item. -/
private theorem Asks.unique {id id' : ItemId} {event event' : ItemEvent} {nowMs nowMs' : ℤ}
    (h : r.Asks u d id event nowMs) (h' : r.Asks u d' id' event' nowMs') : d = d' ∧ id = id' := by
  cases h with
  | create hact =>
    cases h' with
    | create hact' =>
      cases hact.symm.trans hact'
      exact ⟨rfl, rfl⟩
    | edit hact' => cases hact.symm.trans hact'
  | edit hact =>
    cases h' with
    | create hact' => cases hact.symm.trans hact'
    | edit hact' =>
      cases hact.symm.trans hact'
      exact ⟨rfl, rfl⟩

/-- The call at time `u` asks for the authored event `e`. -/
def AsksFor (r : SystemRun ι) (u : ℕ) (d : ι) (e : ItemDescriptor) : Prop :=
  r.Asks u d e.entityId e.payload e.replicaTimeMs

/-- The holder of the storage lock of `d` stores the one change that the call at time `u` asks for,
and no event comes from that call. -/
structure Answers (r : SystemRun ι) (call : Uuid → ℕ) (t : ℕ) (d : ι) (item : Item) (u : ℕ) :
    Prop where
  lt : u < t
  asks : ∃ ev, item.uncommitted = [ev] ∧ r.Asks u d item.id ev.event ev.modifiedAtMs
  first : ∀ d' e, (d', e) ∈ (r.state t).net.authored → call e.replicaEventId ≠ u

/-- Every event has an earlier call of its own, `call` of its id. -/
structure Accounted (r : SystemRun ι) (call : Uuid → ℕ) (t : ℕ) : Prop where
  authored : ∀ v ≤ t, ∀ d e, (d, e) ∈ (r.state v).net.authored →
    call e.replicaEventId < v ∧ r.AsksFor (call e.replicaEventId) d e
  distinct : ∀ d e d' e', (d, e) ∈ (r.state t).net.authored →
    (d', e') ∈ (r.state t).net.authored →
      call e.replicaEventId = call e'.replicaEventId → e = e'
  storing : ∀ d item, (r.state t).lock d = some (.store item) →
    ∃ u, r.Answers call t d item u

/-- A step that authors nothing. -/
private theorem Accounted.of_same (h : r.Accounted call t)
    (hauth : (r.state (t + 1)).net.authored = (r.state t).net.authored)
    (hstoring : ∀ d item, (r.state (t + 1)).lock d = some (.store item) →
      (r.state t).lock d = some (.store item) ∨ ∃ u, r.Answers call (t + 1) d item u) :
    r.Accounted call (t + 1) where
  authored := by
    intro v hv d e he
    rcases Nat.of_le_succ hv with hv | rfl
    · exact h.authored v hv d e he
    · rw [hauth] at he
      obtain ⟨hlt, hasks⟩ := h.authored t le_rfl d e he
      exact ⟨hlt.trans (Nat.lt_succ_self t), hasks⟩
  distinct := by
    rw [hauth]
    exact h.distinct
  storing := by
    intro d item hlock
    rcases hstoring d item hlock with hold | hnew
    · obtain ⟨u, hans⟩ := h.storing d item hold
      exact ⟨u, hans.lt.trans (Nat.lt_succ_self t), hans.asks, hauth ▸ hans.first⟩
    · exact hnew

/-- The one event of a store comes from the call its storage task answers. -/
private theorem Accounted.append (h : r.Accounted call t) (ht : t < r.length) {eventIds : List Uuid}
    (hact : r.act t = .append d eventIds) : ∃ call', r.Accounted call' (t + 1) := by
  obtain ⟨item, hlock, hlength, hnet⟩ := author_of_append ht hact
  obtain ⟨u, hlt, ⟨ev, hev, hasks⟩, hfirst⟩ := h.storing d item hlock
  obtain ⟨x, rfl⟩ : ∃ x, eventIds = [x] := by
    rw [hev] at hlength
    exact List.length_eq_one_iff.mp hlength
  rw [hev] at hnet
  obtain ⟨hfresh, hstate⟩ := NetRun.author_of_act ht hnet
  obtain ⟨e, hone, rfl, hself⟩ : ∃ e : ItemDescriptor,
      DeviceEventLog.authoredBatch (ItemStorage.appendEvents ((r.state t).net.provider d).get
        item.id [(x, ev)]) = [e] ∧ e.replicaEventId = x ∧ r.AsksFor u d e := ⟨_, rfl, rfl, hasks⟩
  have hmem : ∀ {d' a}, (d', a) ∈ (r.state (t + 1)).net.authored ↔
      (d', a) ∈ (r.state t).net.authored ∨ d' = d ∧ a = e := by
    intro d' a
    rw [show (r.state (t + 1)).net.authored = _ from congrArg Replicas.authored hstate,
      (r.netRun.sound ht.le).mem_authored_author hfresh]
    exact or_congr_right (and_congr_right fun _ => hone ▸ List.mem_singleton)
  have hne : ∀ {v d' a}, v ≤ t → (d', a) ∈ (r.state v).net.authored →
      Function.update call e.replicaEventId u a.replicaEventId = call a.replicaEventId := by
    intro v d' a hv ha
    refine Function.update_of_ne (fun heq => ?_) _ _
    have hext := r.netRun.extends_of_le hv ht.le
    exact hfresh.2 _ List.mem_cons_self (heq ▸ Replicas.mem_authoredIds (hext.authored.subset ha))
  refine ⟨Function.update call e.replicaEventId u, fun v hv d' a ha => ?_,
    fun d₁ a d₂ a' ha ha' heq => ?_, fun d' item' hlock' => ?_⟩
  · rcases Nat.of_le_succ hv with hv | rfl
    · rw [hne hv ha]
      exact h.authored v hv d' a ha
    · rcases hmem.mp ha with ha | ⟨rfl, rfl⟩
      · rw [hne le_rfl ha]
        obtain ⟨hlt, hasks⟩ := h.authored t le_rfl d' a ha
        exact ⟨hlt.trans (Nat.lt_succ_self t), hasks⟩
      · rw [Function.update_self]
        exact ⟨hlt.trans (Nat.lt_succ_self t), hself⟩
  · rcases hmem.mp ha with ha | ⟨rfl, rfl⟩ <;>
      rcases hmem.mp ha' with ha' | ⟨rfl, rfl⟩
    · rw [hne le_rfl ha, hne le_rfl ha'] at heq
      exact h.distinct d₁ a d₂ a' ha ha' heq
    · rw [hne le_rfl ha, Function.update_self] at heq
      exact absurd heq (hfirst d₁ a ha)
    · rw [hne le_rfl ha', Function.update_self] at heq
      exact absurd heq.symm (hfirst d₂ a' ha')
    · rfl
  · have hstep := r.step_cases ht
    rw [hact] at hstep
    have hother : d' ≠ d := by
      rintro rfl
      generalize r.state (t + 1) = s' at hstep hlock'
      cases hstep
      rw [show System.lock _ d' = _ from System.lock_setLock_self _ _ _] at hlock'
      cases hlock'
    rw [(hstep.frame fun heq => hother (Option.some.inj heq).symm).2.1] at hlock'
    obtain ⟨u', hlt', hasks', hfirst'⟩ := h.storing d' item' hlock'
    refine ⟨u', hlt'.trans (Nat.lt_succ_self t), hasks', fun d₂ a ha => ?_⟩
    rcases hmem.mp ha with ha | ⟨rfl, rfl⟩
    · rw [hne le_rfl ha]
      exact hfirst' d₂ a ha
    · -- the other device stores for a call made on it
      rw [Function.update_self]
      rintro rfl
      obtain ⟨ev', -, hasks'⟩ := hasks'
      exact hother (hasks'.unique hasks).1

/-- **While the service alone authors events, every event has a call of its own.** -/
theorem ServiceOnly.exists_accounted (h : r.ServiceOnly) (ht : t ≤ r.length) :
    ∃ call, r.Accounted call t := by
  induction t with
  | zero =>
    obtain ⟨⟨-, hauth, -, -⟩, -, hd⟩ := r.init_state
    refine ⟨fun _ => 0, fun v hv d e he => ?_, fun d e _ _ he => ?_, fun d item hlock => ?_⟩
    · obtain rfl := Nat.le_zero.mp hv
      rw [hauth] at he
      exact absurd he List.not_mem_nil
    · rw [hauth] at he
      exact absurd he List.not_mem_nil
    · rw [(hd d).2.1] at hlock
      cases hlock
  | succ t ih =>
    obtain ⟨call, hacc⟩ := ih (Nat.le_of_succ_le ht)
    have hstep := r.step_cases ht
    by_cases happend : ∃ d eventIds, r.act t = .append d eventIds
    · obtain ⟨d, eventIds, hact⟩ := happend
      exact hacc.append ht hact
    have hauth := hstep.authored_eq fun d eventIds hact => happend ⟨d, eventIds, hact⟩
    refine ⟨call, hacc.of_same hauth fun d item hlock => ?_⟩
    refine (hstep.startsStore hlock).imp_right fun hstart => ?_
    generalize hact : r.act t = act at hstart
    cases hstart with
    | lockCreated mem =>
      -- an item that waits to be stored has no events yet
      obtain ⟨u, hu, name, quantity, nowMs, hcreate, hitem⟩ :=
        exists_create (Nat.le_of_succ_le ht) mem
      have hunc : item.uncommitted = [⟨.created name quantity, nowMs⟩] := by
        rw [hitem]
        exact Item.newEvent_uncommitted _ _
      refine ⟨u, hu.trans (Nat.lt_succ_self t), ⟨_, hunc, .create hcreate⟩, fun d' e he heq => ?_⟩
      rw [hauth] at he
      have hpending : item.id ∈ (r.state t).unstored d :=
        List.mem_append_left _ (List.mem_map_of_mem mem)
      refine (h.served (Nat.le_of_succ_le ht)).unstored_new d item.id hpending d' e he ?_
      have hasks := (hacc.authored t le_rfl d' e he).2
      rw [heq] at hasks
      exact (Asks.unique hasks (.create hcreate)).2
    | @edit _ op nowMs _ found =>
      obtain ⟨hid, hunc⟩ := id_of_row (Nat.le_of_succ_le ht) found
      refine ⟨t, Nat.lt_succ_self t, ⟨⟨op.event, nowMs⟩, ?_, ?_⟩, fun d' e he heq => ?_⟩
      · rw [Operation.apply_eq, Item.newEvent_uncommitted, hunc]
        rfl
      · rw [Operation.apply_eq, Item.newEvent_id, hid]
        exact .edit hact
      · rw [hauth] at he
        have hlt := (hacc.authored t le_rfl d' e he).1
        omega
    | store => exact absurd hact (h t ht d item)

/-- An event is in the log of some device or at the server. -/
def Stored (r : SystemRun ι) (t : ℕ) (e : ItemDescriptor) : Prop :=
  (∃ d, e ∈ (r.state t).entries d) ∨ e ∈ (r.state t).net.server.entries

private theorem Stored.exists_authored {e : ItemDescriptor} (h : r.Stored t e) (ht : t ≤ r.length) :
    ∃ d, (d, e.unstamped) ∈ (r.state t).net.authored := by
  rcases h with ⟨d, he⟩ | he
  · exact (r.netRun.sound ht).log_authored he
  · exact (r.netRun.sound ht).server_known e he

/-- A call before time `t` gave item `id` a value. -/
def Gave (r : SystemRun ι) (t : ℕ) (id : ItemId) (value : ItemEvent → ℤ → Prop) : Prop :=
  ∃ u < t, ∃ d event nowMs, r.Asks u d id event nowMs ∧ value event nowMs

end SystemRun

/-- **Every event has a call of its own, and every value comes from one**, along every run in which
the service alone authors events. Each event in a log or at the server was asked for by an earlier
call of the app, on the device whose replica id it carries, with its item, its change and its clock
reading; different events come from different calls. What a row shows has been given by calls too:
its name, its quantity, its note unless it has none, and its time. -/
theorem values_from_calls {ι : Type} [DecidableEq ι] (r : SystemRun ι) (h : r.ServiceOnly) :
    ∃ call : Uuid → ℕ,
      (∀ t ≤ r.length, ∀ e, r.Stored t e → call e.replicaEventId < t ∧
        ∃ d, r.AsksFor (call e.replicaEventId) d e ∧
          e.replicaId = ((r.state t).net.provider d).get) ∧
      (∀ t ≤ r.length, ∀ e e', r.Stored t e → r.Stored t e' →
        call e.replicaEventId = call e'.replicaEventId → e.unstamped = e'.unstamped) ∧
      ∀ t ≤ r.length, ∀ d id item, (r.state t).row d id = some item →
        r.Gave t id (fun event _ => event.name? = some item.name) ∧
        r.Gave t id (fun event _ => event.quantity? = some item.quantity) ∧
        (item.note = none ∨ r.Gave t id fun event _ => event.note? = some item.note) ∧
        r.Gave t id fun _ nowMs => nowMs = item.lastModifiedMs := by
  obtain ⟨call, hacc⟩ := h.exists_accounted le_rfl
  have hstored : ∀ t ≤ r.length, ∀ e, r.Stored t e → call e.replicaEventId < t ∧
      ∃ d, r.AsksFor (call e.replicaEventId) d e ∧
        e.replicaId = ((r.state t).net.provider d).get := by
    intro t ht e he
    obtain ⟨d, hd⟩ := he.exists_authored ht
    obtain ⟨hlt, hasks⟩ := hacc.authored t ht d _ hd
    exact ⟨hlt, d, hasks, (r.netRun.sound ht).authored_replicaId d e.unstamped hd⟩
  refine ⟨call, hstored, fun t ht e e' he he' heq => ?_, fun t ht d id item hrow => ?_⟩
  · obtain ⟨d, hd⟩ := he.exists_authored ht
    obtain ⟨d', hd'⟩ := he'.exists_authored ht
    have hext := r.netRun.extends_of_le ht le_rfl
    exact hacc.distinct d _ d' _ (hext.authored.subset hd) (hext.authored.subset hd') heq
  · -- the row is the fold of a log that the device had, with the creation of the item in it
    have hle := r.version_le d t id
    have hv := (r.row_eq d ht id).symm.trans hrow
    have hsound := r.netRun.sound (hle.trans ht)
    obtain ⟨c, rest, hsplit, hcreated, -⟩ := (h.served (hle.trans ht)).born.bornOnce hsound
      (hsound.log_nodup d) (hsound.causal_log d) (fun e he => hsound.log_authored he)
      (exists_mem_of_rowAt hv)
    have hc : c ∈ eventsOf ((r.state (r.version d t id)).entries d) id := by
      rw [mem_eventsOf]
      have hmem : c ∈ c :: rest := List.mem_cons_self
      rw [← hsplit] at hmem
      exact (List.mem_filter.mp hmem).imp_right of_decide_eq_true
    have hgave : ∀ {value : ItemEvent → ℤ → Prop} {e : ItemDescriptor},
        e ∈ eventsOf ((r.state (r.version d t id)).entries d) id →
          value e.payload e.replicaTimeMs → r.Gave t id value := by
      intro value e he hvalue
      obtain ⟨hmem, rfl⟩ := mem_eventsOf.mp he
      obtain ⟨hlt, d', hasks, -⟩ := hstored _ (hle.trans ht) e (.inl ⟨d, hmem⟩)
      exact ⟨_, hlt.trans_le hle, d', _, _, hasks, hvalue⟩
    obtain ⟨⟨a, ha, hname⟩, ⟨b, hb, hquantity⟩, hnote, ⟨m, hm, htime⟩⟩ :=
      exists_mem_of_fields (fun e he => (mem_eventsOf.mp he).2) hv ⟨c, hc, hcreated⟩
    refine ⟨hgave ha hname, hgave hb hquantity, hnote.imp_right ?_, hgave hm htime⟩
    rintro ⟨n, hn, hnote⟩
    exact hgave hn hnote

/-- Device 0 creates an item and pushes it. Device 1 pulls it, rebuilds its row, renames it and
writes a note on it. -/
def sharedItem : List (Action ℕ) :=
  [.create 0 ⟨7⟩ "milk" 2 100, .lockCreated 0 0, .append 0 [1], .read 0, .write 0, .unlock 0,
    .sync (.beginRound 0 500), .sync (.send 0), .sync (.handle 0 fun _ => 0), .sync (.ack 0),
    .sync (.beginRound 1 500), .sync (.send 1), .sync (.answer 1), .sync (.take 1),
    .sync (.answer 1), .sync (.take 1), .lockRebuild 1 0, .read 1, .write 1, .unlock 1,
    .edit 1 ⟨7⟩ (.rename "oat milk") 300, .append 1 [2], .read 1, .write 1, .unlock 1,
    .edit 1 ⟨7⟩ (.setNote (some "two for one")) 400, .append 1 [3], .read 1, .write 1, .unlock 1]

def sharedItemRun : SystemRun ℕ :=
  .ofList (fun d => ⟨if d = 0 then "A" else "B"⟩) sharedItem (.unlock 0) (by decide +kernel)

theorem values_from_calls_sharedItem : ∃ call : Uuid → ℕ,
    (∃ d, sharedItemRun.AsksFor (call 1) d ⟨1, 1, 100, "A", none, none, ⟨7⟩, .created "milk" 2⟩) ∧
    sharedItemRun.Gave 30 ⟨7⟩ (fun event _ => event.name? = some "oat milk") ∧
    sharedItemRun.Gave 30 ⟨7⟩ (fun event _ => event.quantity? = some 2) := by
  obtain ⟨call, hcalls, -, hrows⟩ := values_from_calls sharedItemRun fun t ht d item hstore => by
    have ht : t < 30 := ht
    interval_cases t <;> cases hstore
  obtain ⟨hname, hquantity, -, -⟩ := hrows 30 (by decide) 1 ⟨7⟩
    { id := ⟨7⟩, name := "oat milk", quantity := 2, note := some "two for one",
      lastModifiedMs := 400 } (by decide +kernel)
  obtain ⟨-, d, hasks, -⟩ := hcalls 5 (by decide)
    ⟨1, 1, 100, "A", none, none, ⟨7⟩, .created "milk" 2⟩ (.inl ⟨0, by decide +kernel⟩)
  exact ⟨call, ⟨d, hasks⟩, hname, hquantity⟩

end OfflineSync
