import OfflineSync.ServerEventLog
import OfflineSync.Lib.Machine

/-!
# The stream of the server log

What the two sides of a sync rely on, for every log the public operations make.

The answer to `append` is an acknowledgement: it is aligned with the batch and lists the entries
as stored, whether they are new, were there before or came a moment earlier in the same batch.
A device that lost it may push again, in other batches and at any later time, and learns the same
(`append_acknowledges`).

`events_after` pages through the log. No cursor stands for offset 0 and the comparison is strict,
so the first page starts at offset 1. That is where `ServerEventLog::new` starts to count; the
derived `Default` starts with 0, and the event with that offset is on no page
(`pages_complete_iff`, `default_hides_first`).
-/

namespace OfflineSync

open Dedup

namespace ServerEventLog

/-- The logs that the public operations make of `log₀`. -/
inductive Reachable (log₀ : ServerEventLog) : ServerEventLog → Prop
  | start : Reachable log₀ log₀
  | append {log : ServerEventLog} (h : Reachable log₀ log) (now : ℕ → ℤ)
      (events : List ItemAppend) : Reachable log₀ (log.append now events).1
  | appendLocal {log : ServerEventLog} (h : Reachable log₀ log) (now : ℕ → ℤ)
      (events : List ItemAppend) : Reachable log₀ (log.appendLocal now events).1

variable {log₀ log log' : ServerEventLog}

private theorem Reachable.grows (h : Reachable log₀ log) : log₀.Grows log := by
  induction h with
  | start => exact .refl
  | append _ now events ih => exact ih.trans (grows_append _ now events)
  | appendLocal _ now events ih => exact ih.trans (grows_appendLocal _ now events)

theorem Reachable.wellFormed (h : new.Reachable log) : log.WellFormed :=
  wellFormed_iff.mpr ((wellFormed_iff.mp wellFormed_new).of_grows h.grows)

/-- Made by either constructor, a log counts its entries from some number. -/
theorem exists_numberedFrom (h : new.Reachable log ∨ default.Reachable log) :
    ∃ base, log.NumberedFrom base := by
  rcases h with h | h
  · exact ⟨1, (wellFormed_iff.mp wellFormed_new).of_grows h.grows⟩
  · exact ⟨0, numberedFrom_default.of_grows h.grows⟩

private theorem Grows.ne_nil_of_find (h : log.Grows log') {id : Uuid} {d : ItemDescriptor}
    (hfind : log.find id = some d) : log'.entries ≠ [] := by
  refine h.isPrefix.ne_nil fun hnil => ?_
  rw [find, hnil] at hfind
  cases hfind

private theorem Grows.ne_nil_of_assign {ev : ItemAppend} {k : ℕ} {now : ℤ}
    (h : (log.assign ev k now).1.Grows log') : log'.entries ≠ [] :=
  h.isPrefix.ne_nil (by simp)

/-- A log that has taken in events is not empty. -/
private theorem append_entries_eq_nil_iff (log : ServerEventLog) (now : ℕ → ℤ)
    {events : List ItemAppend} :
    (log.append now events).1.entries = [] ↔ log.entries = [] ∧ events = [] := by
  constructor
  · intro hnil
    refine ⟨List.prefix_nil.mp (hnil ▸ (grows_append log now events).isPrefix), ?_⟩
    by_contra h
    obtain ⟨ev, rest, rfl⟩ := List.exists_cons_of_ne_nil h
    rw [append] at hnil
    cases hfind : log.find ev.replicaEventId with
    | some existing =>
      rw [hfind] at hnil
      exact (grows_append log _ rest).ne_nil_of_find hfind hnil
    | none =>
      rw [hfind] at hnil
      exact (grows_append (log.assign ev 0 (now 0)).1 _ rest).ne_nil_of_assign hnil
  · rintro ⟨hnil, rfl⟩
    exact hnil

private theorem appendLocal_entries_eq_nil_iff (log : ServerEventLog) (now : ℕ → ℤ)
    {events : List ItemAppend} :
    (log.appendLocal now events).1.entries = [] ↔ log.entries = [] ∧ events = [] := by
  constructor
  · intro hnil
    refine ⟨List.prefix_nil.mp (hnil ▸ (grows_appendLocal log now events).isPrefix), ?_⟩
    by_contra h
    obtain ⟨ev, rest, rfl⟩ := List.exists_cons_of_ne_nil h
    rw [appendLocal, appendLocalFrom] at hnil
    cases hfind : log.find ev.replicaEventId with
    | some existing =>
      rw [hfind] at hnil
      exact (grows_appendLocalFrom 0 log _ rest).ne_nil_of_find hfind hnil
    | none =>
      rw [hfind] at hnil
      exact (grows_appendLocalFrom 1 (log.assign ev 1 (now 0)).1 _ rest).ne_nil_of_assign hnil
  · rintro ⟨hnil, rfl⟩
    exact hnil

/-! ### The answer to an append -/

/-- What is found in a log is found in every longer one. -/
private theorem find_of_isPrefix (h : log.entries <+: log'.entries) {id : Uuid} {d : ItemDescriptor}
    (hd : log.find id = some d) : log'.find id = some d := by
  obtain ⟨new, heq⟩ := h
  rw [find, ← heq, List.find?_append, ← find, hd]
  rfl

/-- Each event of the batch is answered with what a search finds after the append. -/
private theorem append_snd_map_some (log : ServerEventLog) (now : ℕ → ℤ)
    (events : List ItemAppend) : (log.append now events).2.map some
      = events.map fun ev => (log.append now events).1.find ev.replicaEventId := by
  induction events generalizing log now with
  | nil => rfl
  | cons ev events ih =>
    rw [append]
    cases hfind : log.find ev.replicaEventId with
    | some existing =>
      simp only [List.map_cons]
      rw [ih, find_of_isPrefix (grows_append log _ events).isPrefix hfind]
    | none =>
      have hself : (log.assign ev 0 (now 0)).1.find ev.replicaEventId
          = some (log.assign ev 0 (now 0)).2 := by
        rw [find, assign_entries, List.find?_append, ← find, hfind]
        simp
      simp only [List.map_cons]
      rw [ih, find_of_isPrefix (grows_append _ _ events).isPrefix hself]

/-- An event of the batch is found after the append. -/
private theorem exists_find_append (log : ServerEventLog) (now : ℕ → ℤ) {events : List ItemAppend}
    {ev : ItemAppend} (hev : ev ∈ events) :
    ∃ d, (log.append now events).1.find ev.replicaEventId = some d := by
  have hmem : (log.append now events).1.find ev.replicaEventId
      ∈ (log.append now events).2.map some := by
    rw [append_snd_map_some]
    exact List.mem_map_of_mem (f := fun ev =>
      (log.append now events).1.find ev.replicaEventId) hev
  obtain ⟨d, -, hd⟩ := List.mem_map.mp hmem
  exact ⟨d, hd.symm⟩

/-- A batch pushed again gets the same answer and leaves the log as it is. -/
theorem append_again (now now' : ℕ → ℤ) {events : List ItemAppend}
    (h : (log.append now events).1.entries <+: log'.entries) :
    log'.append now' events = (log', (log.append now events).2) := by
  have hfind : ∀ ev ∈ events, log'.find ev.replicaEventId
      = (log.append now events).1.find ev.replicaEventId := by
    intro ev hev
    obtain ⟨d, hd⟩ := exists_find_append log now hev
    rw [hd, find_of_isPrefix h hd]
  have hfst : (log'.append now' events).1 = log' := by
    refine append_of_subset now' fun ev hev => ?_
    obtain ⟨d, hd⟩ := exists_find_append log now hev
    obtain ⟨hmem, hid⟩ := of_find_eq_some ((hfind ev hev).trans hd)
    exact hid ▸ mem_eventIds_of_mem hmem
  refine Prod.ext hfst (List.map_injective_iff.mpr (Option.some_injective _) ?_)
  dsimp only
  rw [append_snd_map_some, append_snd_map_some, hfst]
  exact List.map_congr_left hfind

/-! ### Batches -/

/-- A batch may be cut in two at any place. -/
theorem append_append (log : ServerEventLog) (now : ℕ → ℤ) (xs ys : List ItemAppend) :
    log.append now (xs ++ ys) =
      let first := log.append now xs
      let second := first.1.append (fun i => now (xs.length + i)) ys
      (second.1, first.2 ++ second.2) := by
  induction xs generalizing log now with
  | nil => simp [append]
  | cons ev xs ih =>
    have hnow : (fun i => now (xs.length + i + 1)) = fun i => now (xs.length + 1 + i) := by
      funext i
      congr 1
      omega
    rw [List.cons_append, append, append]
    cases hfind : log.find ev.replicaEventId with
    | some existing =>
      simp only [ih, hnow, List.length_cons, List.cons_append]
    | none =>
      simp only [ih, hnow, List.length_cons, List.cons_append]

end ServerEventLog

/-- A stored event without the reading of the server's clock. -/
def EventDescriptor.untimed (d : ItemDescriptor) : ItemDescriptor :=
  { d with serverTimeMs := none }

namespace ServerEventLog

variable {log₀ log log' : ServerEventLog}

/-- A log without the readings of the server's clock. -/
def untimed (log : ServerEventLog) : ServerEventLog where
  entries := log.entries.map EventDescriptor.untimed
  nextServerOffset := log.nextServerOffset

private theorem find_untimed (log : ServerEventLog) (id : Uuid) :
    log.untimed.find id = (log.find id).map EventDescriptor.untimed := by
  rw [find, untimed, List.find?_map]
  rfl

theorem after_untimed (log : ServerEventLog) (offset : Option ServerOffset) :
    log.untimed.after offset = (log.after offset).map EventDescriptor.untimed := by
  rw [after, untimed, List.filter_map]
  rfl

/-- The server's clock decides nothing but the readings it leaves. -/
theorem append_untimed (h : log.untimed = log'.untimed) (now now' : ℕ → ℤ)
    (events : List ItemAppend) :
    (log.append now events).1.untimed = (log'.append now' events).1.untimed ∧
      (log.append now events).2.map EventDescriptor.untimed
        = (log'.append now' events).2.map EventDescriptor.untimed := by
  induction events generalizing log log' now now' with
  | nil => exact ⟨h, rfl⟩
  | cons ev events ih =>
    have hfinds : (log.find ev.replicaEventId).map EventDescriptor.untimed
        = (log'.find ev.replicaEventId).map EventDescriptor.untimed := by
      rw [← find_untimed, h, find_untimed]
    rw [append, append]
    cases hfind : log.find ev.replicaEventId with
    | some existing =>
      rw [hfind] at hfinds
      obtain ⟨existing', hfind', heq⟩ := Option.map_eq_some_iff.mp hfinds.symm
      obtain ⟨hlog, hans⟩ := ih h (fun i => now (i + 1)) (fun i => now' (i + 1))
      simp only [hfind', List.map_cons, hans, heq]
      exact ⟨hlog, trivial⟩
    | none =>
      have hfind' : log'.find ev.replicaEventId = none := by
        simpa [hfind] using hfinds.symm
      have hentries : log.entries.map EventDescriptor.untimed
          = log'.entries.map EventDescriptor.untimed := congrArg entries h
      have hnext : log.untimed.nextServerOffset = log'.untimed.nextServerOffset :=
        congrArg nextServerOffset h
      change log.nextServerOffset = log'.nextServerOffset at hnext
      have hd : (log.assign ev 0 (now 0)).2.untimed = (log'.assign ev 0 (now' 0)).2.untimed := by
        simp only [assign, EventDescriptor.untimed, hnext]
      have hassign : (log.assign ev 0 (now 0)).1.untimed
          = (log'.assign ev 0 (now' 0)).1.untimed := by
        simp only [untimed, assign_entries, List.map_append, hentries, List.map_cons, hd]
        simp only [assign, hnext]
      obtain ⟨hlog, hans⟩ := ih hassign (fun i => now (i + 1)) (fun i => now' (i + 1))
      simp only [hfind', List.map_cons, hans, hd]
      exact ⟨hlog, trivial⟩

/-- **The answer to an append is an acknowledgement**: aligned with the batch, the same however
the events are cut into batches, and the same when the batch is pushed again. -/
theorem append_acknowledges (h : new.Reachable log) (now : ℕ → ℤ) (xs : List ItemAppend) :
    let stored := log.append now xs
    (stored.2.length = xs.length ∧
        ∀ (i : ℕ) ev, xs[i]? = some ev → ∃ d ∈ stored.1.entries, stored.2[i]? = some d ∧
          d.replicaEventId = ev.replicaEventId ∧ d.serverOffset.isSome) ∧
      (log.entries <+: stored.1.entries ∧
        stored.1.ids = addAll log.ids (xs.map AppendEvent.replicaEventId) ∧
        stored.1.WellFormed) ∧
      (∀ (ys : List ItemAppend) now₁ now₂, let second := stored.1.append now₂ ys
        (log.append now₁ (xs ++ ys)).1.untimed = second.1.untimed ∧
          (log.append now₁ (xs ++ ys)).2.map EventDescriptor.untimed
            = (stored.2 ++ second.2).map EventDescriptor.untimed) ∧
      ∀ later now', stored.1.Reachable later → later.append now' xs = (later, stored.2) := by
  intro stored
  have hwf : stored.1.WellFormed := h.wellFormed.append now xs
  have hids : eventIds stored.2 = xs.map AppendEvent.replicaEventId :=
    eventIds_append_snd log now xs
  refine ⟨⟨by simpa [eventIds] using congrArg List.length hids, fun i ev hev => ?_⟩,
    ⟨(grows_append log now xs).isPrefix, ids_append log now xs, hwf⟩, fun ys now₁ now₂ => ?_,
    fun later now' hlater => append_again now now' hlater.grows.isPrefix⟩
  · have hi : (stored.2[i]?).map EventDescriptor.replicaEventId = some ev.replicaEventId := by
      rw [← List.getElem?_map, ← eventIds, hids, List.getElem?_map, hev]
      rfl
    obtain ⟨d, hd, hid⟩ := Option.map_eq_some_iff.mp hi
    have hmem := mem_entries_of_mem_append_snd log now xs d (List.mem_of_getElem? hd)
    obtain ⟨j, hj⟩ := List.mem_iff_getElem?.mp hmem
    exact ⟨d, hmem, hd, hid, by rw [hwf.offset j d hj]; rfl⟩
  · intro second
    obtain ⟨hfirst, hanswer⟩ := append_untimed (rfl : log.untimed = _) now₁ now xs
    obtain ⟨hsecond, hanswer'⟩ :=
      append_untimed hfirst (fun i => now₁ (xs.length + i)) now₂ ys
    rw [append_append]
    simp only [List.map_append]
    exact ⟨hsecond, by rw [hanswer, hanswer']⟩

/-- Two devices have each stored an item; one of them then pushes a batch that repeats the event
of the other and one of its own. -/
def sharedLog : ServerEventLog :=
  (new.append (fun _ => 1000)
    [⟨1, ⟨7⟩, .created "milk" 2, "A", 100, some 1, none, none⟩,
      ⟨2, ⟨8⟩, .created "eggs" 6, "B", 150, some 1, none, none⟩]).1

def repeatingBatch : List ItemAppend :=
  [⟨2, ⟨8⟩, .created "eggs" 6, "B", 150, some 1, none, none⟩,
    ⟨3, ⟨7⟩, .renamed "oat milk", "B", 200, some 1, none, none⟩,
    ⟨3, ⟨7⟩, .renamed "oat milk", "B", 200, some 1, none, none⟩]

theorem append_acknowledges_repeatingBatch :
    (sharedLog.append (fun _ => 2000) repeatingBatch).2.length = repeatingBatch.length :=
  (append_acknowledges (Reachable.start.append _ _) (fun _ => 2000) repeatingBatch).1.1

end ServerEventLog

/-! ### Paging -/

/-- A client that pages through the log, and the log. -/
structure Paging where
  log : ServerEventLog
  cursor : Option ServerOffset := none
  /-- The pages so far, joined. -/
  read : List ItemDescriptor := []
  /-- The last page was empty. -/
  finished : Bool := false
deriving DecidableEq, Repr

/-- What happens to the log, and the calls of the client. -/
inductive PagingAction
  | append (now : ℕ → ℤ) (events : List ItemAppend)
  | appendLocal (now : ℕ → ℤ) (events : List ItemAppend)
  | page (limit : ℕ)

/-- The events an action brings. -/
def PagingAction.events : PagingAction → List ItemAppend
  | .append _ events | .appendLocal _ events => events
  | .page _ => []

namespace Paging

/-- One call. The client resumes at the cursor of the page, and its empty page is the last call
of all. -/
def step (s : Paging) (a : PagingAction) : Option Paging :=
  if s.finished then none
  else
    match a with
    | .append now events => some { s with log := (s.log.append now events).1 }
    | .appendLocal now events => some { s with log := (s.log.appendLocal now events).1 }
    | .page limit =>
      if limit = 0 then none
      else
        let page := s.log.eventsAfter s.cursor limit
        if page.events = [] then some { s with finished := true }
        else some { s with cursor := page.nextOffset, read := s.read ++ page.events }

end Paging

/-- Paging from the start, over a log made by either constructor. -/
def paging : Machine Paging PagingAction where
  init s := s = { log := .new } ∨ s = { log := .default }
  step := Paging.step

namespace Paging

variable {base : ℕ} {s s' : Paging} {a : PagingAction}

/-- The client has every stored event, once each and in the order of the offsets. -/
structure ReadsAll (s : Paging) : Prop where
  mem_iff : ∀ e, e ∈ s.read ↔ e ∈ s.log.entries
  nodup : s.read.Nodup
  increasing : s.read.Pairwise fun a b => ServerEventLog.streamKey a < ServerEventLog.streamKey b

/-- What an action does. -/
private theorem step_cases (h : s.step a = some s') :
    s.finished = false ∧
      ((∃ log, s.log.Grows log ∧ (log.entries = [] ↔ s.log.entries = [] ∧ a.events = []) ∧
          s' = { s with log := log }) ∨
        ∃ limit, a = .page limit ∧ 0 < limit ∧
          let page := s.log.eventsAfter s.cursor limit
          ((page.events = [] ∧ s' = { s with finished := true }) ∨
            (page.events ≠ [] ∧
              s' = { s with cursor := page.nextOffset, read := s.read ++ page.events }))) := by
  unfold step at h
  split_ifs at h with hf
  refine ⟨Bool.eq_false_iff.mpr hf, ?_⟩
  cases a with
  | append now events =>
    exact .inl ⟨_, ServerEventLog.grows_append _ now events,
      ServerEventLog.append_entries_eq_nil_iff _ now, (Option.some.inj h).symm⟩
  | appendLocal now events =>
    exact .inl ⟨_, ServerEventLog.grows_appendLocal _ now events,
      ServerEventLog.appendLocal_entries_eq_nil_iff _ now, (Option.some.inj h).symm⟩
  | page limit =>
    dsimp only at h
    split_ifs at h with hlimit hpage
    · exact .inr ⟨limit, rfl, Nat.pos_of_ne_zero hlimit, .inl ⟨hpage, (Option.some.inj h).symm⟩⟩
    · exact .inr ⟨limit, rfl, Nat.pos_of_ne_zero hlimit, .inr ⟨hpage, (Option.some.inj h).symm⟩⟩

/-- Where the client is: it has the events up to its cursor, of those that a cursor can be
before. -/
structure Sound (base : ℕ) (s : Paging) : Prop where
  numbered : s.log.NumberedFrom base
  read : s.read = (s.log.entries.drop (1 - base)).take (ServerEventLog.cursorVal s.cursor)
  cursor_le : ServerEventLog.cursorVal s.cursor ≤ (s.log.entries.drop (1 - base)).length
  done : s.finished = true → s.read = s.log.entries.drop (1 - base)

/-- A page carries on where the client is. -/
private theorem Sound.page_events (h : s.Sound base) (hbase : base ≤ 1) (limit : ℕ) :
    (s.log.eventsAfter s.cursor limit).events
      = ((s.log.entries.drop (1 - base)).drop
          (ServerEventLog.cursorVal s.cursor)).take limit := by
  have hpos : ServerEventLog.cursorVal s.cursor + 1 - base
      = 1 - base + ServerEventLog.cursorVal s.cursor := by omega
  rw [h.numbered.eventsAfter_events, hpos, List.drop_drop]

/-- The cursor of a page is as far on as the page is long. -/
private theorem Sound.cursorVal_nextOffset (h : s.Sound base) (hbase : base ≤ 1) {limit : ℕ}
    (hpage : (s.log.eventsAfter s.cursor limit).events ≠ []) :
    ServerEventLog.cursorVal (s.log.eventsAfter s.cursor limit).nextOffset
      = ServerEventLog.cursorVal s.cursor
        + (s.log.eventsAfter s.cursor limit).events.length := by
  rw [ServerEventLog.eventsAfter_nextOffset]
  have hpos := List.length_pos_iff.mpr hpage
  rw [h.page_events hbase, List.drop_drop] at hpage hpos ⊢
  rw [h.numbered.getLast?_segment hpage]
  change base + _ = _
  omega

private theorem Sound.of_step (hbase : base ≤ 1) (h : s.Sound base) (hstep : s.step a = some s') :
    s'.Sound base := by
  obtain ⟨hf, ⟨log, hgrows, -, rfl⟩ | ⟨limit, -, hlimit, ⟨hpage, rfl⟩ | ⟨hpage, rfl⟩⟩⟩ :=
    step_cases hstep
  · -- what is added comes after everything the client has
    obtain ⟨new, hnew⟩ := hgrows.isPrefix
    have hdrop : log.entries.drop (1 - base) = s.log.entries.drop (1 - base)
        ++ new.drop (1 - base - s.log.entries.length) := by
      rw [← hnew, List.drop_append]
    refine ⟨h.numbered.of_grows hgrows, ?_, ?_, fun hf' => ?_⟩
    · dsimp only
      rw [hdrop, List.take_append_of_le_length h.cursor_le, h.read]
    · dsimp only
      rw [hdrop, List.length_append]
      exact h.cursor_le.trans (Nat.le_add_right _ _)
    · exact absurd hf' (hf ▸ Bool.false_ne_true)
  · -- nothing is left after the cursor
    refine ⟨h.numbered, h.read, h.cursor_le, fun _ => ?_⟩
    rw [h.page_events hbase, List.take_eq_nil_iff] at hpage
    have hlen := List.drop_eq_nil_iff.mp (hpage.resolve_left hlimit.ne')
    exact h.read.trans (List.take_of_length_le hlen)
  · have hnext := h.cursorVal_nextOffset hbase hpage
    have hevents := h.page_events hbase limit
    refine ⟨h.numbered, ?_, ?_, fun hf' => absurd hf' (hf ▸ Bool.false_ne_true)⟩
    · dsimp only
      rw [hnext, List.take_add, ← h.read]
      congr 1
      exact List.prefix_iff_eq_take.mp (hevents ▸ List.take_prefix _ _)
    · dsimp only
      rw [hnext, hevents, List.length_take, List.length_drop]
      have hle := h.cursor_le
      omega

/-- A log is empty as long as no events have come. -/
private theorem entries_eq_nil_of_step (hstep : s.step a = some s') :
    s'.log.entries = [] ↔ s.log.entries = [] ∧ a.events = [] := by
  obtain ⟨-, ⟨log, -, hnil, rfl⟩ | ⟨limit, rfl, -, ⟨-, rfl⟩ | ⟨-, rfl⟩⟩⟩ := step_cases hstep
  · exact hnil
  · exact (and_iff_left rfl).symm
  · exact (and_iff_left rfl).symm

/-- At the end the client misses the event with offset 0, where there is one. -/
private theorem Sound.readsAll_iff (h : s.Sound base) (hbase : base ≤ 1) (hf : s.finished = true) :
    s.ReadsAll ↔ base = 1 ∨ s.log.entries = [] := by
  have hread := h.done hf
  have hnd : s.log.entries.Nodup := List.Nodup.of_map _ h.numbered.nodup
  constructor
  · intro hall
    by_contra hnot
    push Not at hnot
    obtain ⟨hne, hnil⟩ := hnot
    obtain ⟨e, rest, heq⟩ := List.exists_cons_of_ne_nil hnil
    have hbase : 1 - base = 1 := by omega
    rw [hbase, heq, List.drop_succ_cons, List.drop_zero] at hread
    have hmem : e ∈ s.read := (hall.mem_iff e).mpr (heq ▸ List.mem_cons_self)
    rw [heq] at hnd
    exact (List.nodup_cons.mp hnd).1 (hread ▸ hmem)
  · intro hor
    have hread : s.read = s.log.entries := by
      rcases hor with rfl | hnil
      · exact hread
      · rw [hread, hnil, List.drop_nil]
    exact ⟨fun e => hread ▸ Iff.rfl, hread ▸ hnd, hread ▸ h.numbered.pairwise_lt⟩

end Paging

namespace Paging

variable {t : ℕ}

private theorem sound_of_le {base : ℕ} (hbase : base ≤ 1) (r : paging.Run)
    (h₀ : (r.state 0).Sound base) (ht : t ≤ r.length) : (r.state t).Sound base :=
  r.le_induction (P := fun t => (r.state t).Sound base) h₀
    (fun u _ hu h => h.of_step hbase (r.step_state u hu)) t (Nat.zero_le t) ht

private theorem entries_eq_nil_iff (r : paging.Run) (ht : t ≤ r.length) :
    (r.state t).log.entries = [] ↔ ∀ u < t, (r.act u).events = [] := by
  induction t with
  | zero =>
    have hnil : (r.state 0).log.entries = [] := by
      rcases r.init_state with heq | heq <;> rw [heq] <;> rfl
    exact ⟨fun _ u hu => absurd hu (Nat.not_lt_zero u), fun _ => hnil⟩
  | succ t ih =>
    rw [entries_eq_nil_of_step (r.step_state t ht), ih (Nat.le_of_succ_le ht)]
    exact Nat.forall_lt_succ_right.symm

end Paging

/-- **Paging from the start yields every stored event exactly when the log counts from 1**: a log
made by `new`, or one in which nothing was ever stored. -/
theorem pages_complete_iff (r : paging.Run) {t : ℕ} (ht : t ≤ r.length)
    (hf : (r.state t).finished = true) :
    (r.state t).ReadsAll ↔ (r.state 0).log = .new ∨ ∀ u < t, (r.act u).events = [] := by
  rw [← Paging.entries_eq_nil_iff r ht]
  rcases r.init_state with heq | heq
  · have hsound : (r.state 0).Sound 1 := by
      rw [heq]
      exact ⟨ServerEventLog.wellFormed_iff.mp ServerEventLog.wellFormed_new, rfl,
        Nat.zero_le _, fun hf => absurd hf Bool.false_ne_true⟩
    rw [(Paging.sound_of_le le_rfl r hsound ht).readsAll_iff le_rfl hf, heq]
    exact iff_of_true (.inl rfl) (.inl rfl)
  · have hsound : (r.state 0).Sound 0 := by
      rw [heq]
      exact ⟨ServerEventLog.numberedFrom_default, rfl, Nat.zero_le _,
        fun hf => absurd hf Bool.false_ne_true⟩
    rw [(Paging.sound_of_le (Nat.zero_le 1) r hsound ht).readsAll_iff (Nat.zero_le 1) hf, heq]
    exact or_congr_left (iff_of_false Nat.zero_ne_one (by decide))

/-- A device stores an item, the client reads a page, a second item comes, and the client reads on
until a page is empty. -/
def pagingActions : List PagingAction :=
  [.append (fun _ => 1000) [⟨1, ⟨7⟩, .created "milk" 2, "A", 100, some 1, none, none⟩],
    .page 1,
    .appendLocal (fun _ => 1100) [⟨2, ⟨8⟩, .created "eggs" 6, "server", 150, none, none, none⟩],
    .page 5, .page 5]

def pagingFromNew : paging.Run :=
  .ofList paging { log := .new } (.inl rfl) pagingActions (.page 1) (by decide +kernel)

theorem pages_complete_iff_pagingFromNew : (pagingFromNew.state 5).ReadsAll :=
  (pages_complete_iff pagingFromNew (t := 5) le_rfl (by decide +kernel)).mpr (.inl rfl)

/-- The same calls on a log made by `default`: its first page is empty already. -/
def pagingFromDefault : paging.Run :=
  .ofList paging { log := .default } (.inr rfl) (pagingActions.take 2) (.page 1)
    (by decide +kernel)

/-- **The first event of a log made by `default` is on no page.** -/
theorem default_hides_first :
    (pagingFromDefault.state 2).finished = true ∧ (pagingFromDefault.state 2).read = [] ∧
      (pagingFromDefault.state 2).log.entries.length = 1 ∧
      ¬ (pagingFromDefault.state 2).ReadsAll := by
  refine ⟨by decide +kernel, by decide +kernel, by decide +kernel, fun hall => ?_⟩
  obtain ⟨e, he⟩ : ∃ e, e ∈ (pagingFromDefault.state 2).log.entries :=
    ⟨_, List.head_mem (by decide +kernel)⟩
  have hnil : (pagingFromDefault.state 2).read = [] := by decide +kernel
  exact absurd ((hall.mem_iff e).mpr he) (hnil ▸ List.not_mem_nil)

end OfflineSync
