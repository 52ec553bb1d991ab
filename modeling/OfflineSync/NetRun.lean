import OfflineSync.Rounds

/-!
# Runs of the protocol

The rules for runs of the protocol, with idle steps between its own, so that they serve every
system the protocol is part of: the invariant holds at every time (`inv`), logs only grow
(`extends_of_le`), and a device that does not author keeps its events and what it has synced.

For the round of a device a run has a little history. `InRound r d t₀ t` is a round that began
at `t₀` and is under way at `t`, `ReturnsOk r d t₀ t₁` one that ended with `Ok` at `t₁`. The
page a round is looking at was answered at some earlier time of the same round
(`exists_answer`), and what a device downloads between two times is what its cursor moved over
(`take_cursor_eq`).
-/

namespace OfflineSync

open Dedup

/-- The runs of the protocol within a larger system. -/
abbrev NetRun (ι : Type) [DecidableEq ι] : Type :=
  (Net.machine ι).stuttering.Run

variable {ι : Type} [DecidableEq ι]

/-! ### What one step does to a device -/

namespace Net

variable {s s' : Net ι} {a : NetAction ι} {d : ι}

/-- Only a store of its own adds to what a device authored. -/
theorem Inv.authoredBy_of_step (h : s.Inv) (hstep : Step s a s')
    (ha : ∀ id changes, a ≠ .author d id changes) : s'.authoredBy d = s.authoredBy d := by
  cases hstep with
  | @author d' id changes _ hnd hfresh =>
    have hne : d ≠ d' := by
      rintro rfl
      exact ha id changes rfl
    exact h.sound.authoredBy_author_of_ne (fresh_appendEvents hnd hfresh) hne
  | _ => rfl

/-- A synced device stays synced until it authors. -/
private theorem Inv.synced_of_step (h : s.Inv) (hstep : Step s a s')
    (ha : ∀ id changes, a ≠ .author d id changes) (hsynced : s.toReplicas.Synced d) :
    s'.toReplicas.Synced d := by
  by_cases hd : a.device = some d
  · cases hstep with
    | @author d' id changes =>
      obtain rfl := Option.some.inj hd
      exact absurd rfl (ha id changes)
    | @ack d' batch stored phase =>
      obtain rfl := Option.some.inj hd
      intro e he
      obtain ⟨e₀, he₀, rfl⟩ := h.sound.mem_entries_record he
      -- acknowledged or not, the entry keeps an offset
      rcases h.sound.acknowledge_known (h.phase d' _ phase) he₀ with ⟨heq, -⟩ | hs
      · rw [heq]
        exact hsynced e₀ he₀
      · exact serverOffset_ne_none h.sound.server_wf hs
    | @take d' batch touched page phase more =>
      obtain rfl := Option.some.inj hd
      exact synced_receive h.sound hsynced (h.phase d' _ phase).2
    | _ => exact hsynced
  · rw [Replicas.Synced, (hstep.frame hd).1]
    exact hsynced

/-- The events a device takes in by an action: those of the page it is looking at. -/
def taken (s : Net ι) (d : ι) : Option (NetAction ι) → List ItemDescriptor
  | some (.sync (.take d')) =>
    if d' = d then
      match s.round d with
      | some ⟨_, .pulled _ page⟩ => page.events
      | _ => []
    else []
  | _ => []

private theorem taken_of_device_ne (s : Net ι) (hd : a.device ≠ some d) :
    s.taken d (some a) = [] := by
  unfold taken
  split
  next d' heq =>
    obtain rfl := Option.some.inj heq
    exact if_neg fun h => hd (congrArg some h)
  next => rfl

/-- **The cursor moves over what the device takes in.** -/
theorem Inv.take_cursor_of_step (h : s.Inv) (hstep : Step s a s')
    (ha : a ≠ .sync (.newRunner d)) :
    s'.server.entries.take (s'.cursor d)
      = s.server.entries.take (s.cursor d) ++ s.taken d (some a) := by
  have hext := h.extends_of_step hstep
  have hsame : s'.state d = s.state d → s.taken d (some a) = [] →
      s'.server.entries.take (s'.cursor d)
        = s.server.entries.take (s.cursor d) ++ s.taken d (some a) := by
    intro hstate htaken
    rw [htaken, List.append_nil, Replicas.cursor, hstate, ← Replicas.cursor,
      hext.take_server (h.sound.cursor_le d)]
  by_cases hd : a.device = some d
  · cases hstep with
    | @take d' batch touched page phase more =>
      obtain rfl := Option.some.inj hd
      have htaken : s.taken d' (some (.sync (.take d'))) = page.events := by
        simp [taken, phase]
      rw [htaken]
      exact (h.phase d' _ phase).2.take_cursor_receive h.sound more
    | @finish d' batch touched page phase empty =>
      obtain rfl := Option.some.inj hd
      -- an empty page carries no cursor, and the cursor stays
      exact hsame rfl (by simp [taken, phase, empty])
    | newRunner =>
      obtain rfl := Option.some.inj hd
      exact absurd rfl ha
    | _ => exact hsame rfl rfl
  · exact hsame (hstep.frame hd).2.1 (s.taken_of_device_ne hd)

private theorem Step.idle_of_author {id : ItemId} {changes : List (Uuid × EntityEvent ItemEvent)}
    (h : Step s (.author d id changes) s') : s.round d = none := by
  cases h with
  | author unlocked => exact unlocked

private theorem Step.idle_of_beginRound {batch : ℕ} (h : Step s (.sync (.beginRound d batch)) s') :
    s.round d = none := by
  cases h with
  | beginRound idle => exact idle

theorem Step.pull_of_answer (h : Step s (.sync (.answer d)) s') :
    ∃ batch touched, s.round d = some ⟨batch, .pull touched⟩ := by
  cases h with
  | answer phase => exact ⟨_, _, phase⟩

/-- A page the device looks at after a step was there before, or has just been answered. -/
private theorem pulled_of_step (hstep : Step s a s') {batch : ℕ} {touched : List ItemId}
    {page : EventsPage ItemEvent ItemId}
    (h : s'.round d = some ⟨batch, .pulled touched page⟩) :
    s'.state d = s.state d ∧
      (s.round d = some ⟨batch, .pulled touched page⟩ ∨
        a = .sync (.answer d) ∧ page = s.server.eventsAfter (s.state d).pulled batch) := by
  by_cases hd : a.device = some d
  · cases hstep with
    | author | newRunner =>
      obtain rfl := Option.some.inj hd
      simp_all
    | answer phase =>
      obtain rfl := Option.some.inj hd
      rw [round_setRound_self] at h
      cases h
      exact ⟨rfl, .inr ⟨rfl, rfl⟩⟩
    | deliver => exact ⟨rfl, .inl h⟩
    | _ =>
      obtain rfl := Option.some.inj hd
      simp [setRound] at h
  · obtain ⟨-, hstate, hround⟩ := hstep.frame hd
    exact ⟨hstate, .inl (hround ▸ h)⟩

end Net

namespace NetRun

open Net

variable {r : NetRun ι} {d : ι} {t t' : ℕ}

/-! ### Invariants of a run -/

/-- A step of a run is idle or one of the protocol. -/
theorem step_cases (r : NetRun ι) (ht : t < r.length) :
    r.act t = none ∧ r.state (t + 1) = r.state t ∨
      ∃ a, r.act t = some a ∧ Step (r.state t) a (r.state (t + 1)) := by
  have hstep := r.step_state t ht
  cases ha : r.act t with
  | none =>
    rw [ha] at hstep
    exact .inl ⟨rfl, (Option.some.inj hstep).symm⟩
  | some a =>
    rw [ha] at hstep
    exact .inr ⟨a, rfl, Net.step_cases hstep⟩

theorem step_of_act (r : NetRun ι) (ht : t < r.length) {a : NetAction ι} (ha : r.act t = some a) :
    Step (r.state t) a (r.state (t + 1)) := by
  have hstep := r.step_state t ht
  rw [ha] at hstep
  exact Net.step_cases hstep

theorem inv (r : NetRun ι) (ht : t ≤ r.length) : (r.state t).Inv := by
  refine r.invariant (P := Net.Inv) (fun _ h => .init h) (fun s a s' h hstep => ?_) ht
  cases a with
  | none => exact Option.some.inj hstep ▸ h
  | some a => exact h.step (Net.step_cases hstep)

theorem sound (r : NetRun ι) (ht : t ≤ r.length) : (r.state t).toReplicas.Sound :=
  (r.inv ht).sound

/-- The logs at a later time continue those at an earlier one. -/
theorem extends_of_le (r : NetRun ι) (h : t ≤ t') (ht' : t' ≤ r.length) :
    (r.state t).toReplicas.Extends (r.state t').toReplicas := by
  refine r.mono (R := fun s s' : Net ι => s.toReplicas.Extends s'.toReplicas)
    (fun s => .refl _) (fun _ _ _ h h' => h.trans h') (fun u hu => ?_) h ht'
  rcases r.step_cases hu with ⟨-, heq⟩ | ⟨a, -, hstep⟩
  · rw [heq]
    exact .refl _
  · exact (r.inv hu.le).extends_of_step hstep

/-- Device `d` authors nothing from time `t` on, until `t'`. -/
def Quiet (r : NetRun ι) (d : ι) (t t' : ℕ) : Prop :=
  ∀ u, t ≤ u → u < t' → ∀ id changes, r.act u ≠ some (.author d id changes)

/-- The runner of device `d` is not replaced from time `t` on, until `t'`. -/
def SameRunner (r : NetRun ι) (d : ι) (t t' : ℕ) : Prop :=
  ∀ u, t ≤ u → u < t' → r.act u ≠ some (.sync (.newRunner d))

theorem Quiet.authoredBy_eq (hq : Quiet r d t t') (h : t ≤ t') (ht' : t' ≤ r.length) :
    (r.state t').authoredBy d = (r.state t).authoredBy d := by
  suffices ∀ u, t ≤ u → u ≤ r.length → u ≤ t' →
      (r.state u).authoredBy d = (r.state t).authoredBy d from this t' h ht' le_rfl
  refine r.le_induction (fun _ => rfl) fun u htu hu ih hle => ?_
  rw [← ih (by omega)]
  rcases r.step_cases hu with ⟨-, heq⟩ | ⟨a, ha, hstep⟩
  · rw [heq]
  · refine (r.inv hu.le).authoredBy_of_step hstep fun id changes heq => ?_
    exact hq u htu hle id changes (heq ▸ ha)

theorem Quiet.synced (hq : Quiet r d t t') (h : t ≤ t') (ht' : t' ≤ r.length)
    (hsynced : (r.state t).toReplicas.Synced d) : (r.state t').toReplicas.Synced d := by
  suffices ∀ u, t ≤ u → u ≤ r.length → u ≤ t' → (r.state u).toReplicas.Synced d from
    this t' h ht' le_rfl
  refine r.le_induction (fun _ => hsynced) fun u htu hu ih hle => ?_
  rcases r.step_cases hu with ⟨-, heq⟩ | ⟨a, ha, hstep⟩
  · rw [heq]
    exact ih (by omega)
  · refine (r.inv hu.le).synced_of_step hstep (fun id changes heq => ?_) (ih (by omega))
    exact hq u htu hle id changes (heq ▸ ha)

/-- A store along a run: the ids are fresh, and the next state is `append_local`'s. -/
theorem author_of_act {id : ItemId} {changes : List (Uuid × EntityEvent ItemEvent)}
    (ht : t < r.length) (ha : r.act t = some (.author d id changes)) :
    (r.state t).toReplicas.Fresh
        (ItemStorage.appendEvents ((r.state t).provider d).get id changes) ∧
      (r.state (t + 1)).toReplicas = (r.state t).toReplicas.author d
        (ItemStorage.appendEvents ((r.state t).provider d).get id changes) := by
  have hstep := r.step_of_act ht ha
  generalize r.state (t + 1) = s' at hstep
  cases hstep with
  | author _ hnd hfresh => exact ⟨Net.fresh_appendEvents hnd hfresh, rfl⟩

/-! ### Downloads -/

/-- The events device `d` takes in during the `n` steps from time `t` on. -/
def downloaded (r : NetRun ι) (d : ι) (t : ℕ) : ℕ → List ItemDescriptor
  | 0 => []
  | n + 1 => downloaded r d t n ++ (r.state (t + n)).taken d (r.act (t + n))

/-- **What the cursor moved over is what was downloaded.** -/
theorem SameRunner.take_cursor_eq {n : ℕ} (hs : SameRunner r d t (t + n))
    (ht : t + n ≤ r.length) :
    (r.state (t + n)).server.entries.take ((r.state (t + n)).cursor d)
      = (r.state t).server.entries.take ((r.state t).cursor d) ++ downloaded r d t n := by
  induction n with
  | zero => simp [downloaded]
  | succ n ih =>
    have ih := ih (fun u htu hu => hs u htu (by omega)) (by omega)
    have hlt : t + n < r.length := by omega
    rw [downloaded, ← List.append_assoc, ← ih]
    rcases r.step_cases hlt with ⟨ha, heq⟩ | ⟨a, ha, hstep⟩
    · rw [← Nat.add_assoc, heq, ha]
      exact (List.append_nil _).symm
    · rw [← Nat.add_assoc, ha]
      refine (r.inv hlt.le).take_cursor_of_step hstep fun heq => ?_
      exact hs (t + n) (by omega) (by omega) (heq ▸ ha)

/-- The cursor of a runner never moves back. -/
theorem SameRunner.cursor_le (hs : SameRunner r d t t') (h : t ≤ t') (ht' : t' ≤ r.length) :
    (r.state t).cursor d ≤ (r.state t').cursor d := by
  obtain ⟨n, rfl⟩ := Nat.exists_eq_add_of_le h
  have hlen := congrArg List.length (hs.take_cursor_eq ht')
  rw [List.length_append, List.length_take, List.length_take,
    min_eq_left ((r.sound ht').cursor_le d),
    min_eq_left ((r.sound (by omega)).cursor_le d)] at hlen
  omega

/-! ### Rounds -/

/-- Device `d` begins a round at time `t₀`, and it is still under way at time `t`. -/
structure InRound (r : NetRun ι) (d : ι) (t₀ t : ℕ) : Prop where
  begins : ∃ batch, r.act t₀ = some (.sync (.beginRound d batch))
  lt : t₀ < t
  le : t ≤ r.length
  running : ∀ u, t₀ < u → u ≤ t → (r.state u).round d ≠ none

/-- Device `d` begins a round at time `t₀`, and `sync` returns `Ok` at time `t₁`. -/
structure ReturnsOk (r : NetRun ι) (d : ι) (t₀ t₁ : ℕ) : Prop where
  inRound : InRound r d t₀ t₁
  lt : t₁ < r.length
  returns : ∃ a touched, r.act t₁ = some (.sync a) ∧ (r.state t₁).returns a = some (d, touched)

/-- The server answers a pull of device `d` for the last time before `t₁` at time `t₂`, after
`t₀`. -/
structure LastAnswer (r : NetRun ι) (d : ι) (t₀ t₁ t₂ : ℕ) : Prop where
  after : t₀ < t₂
  before : t₂ < t₁
  answer : r.act t₂ = some (.sync (.answer d))
  last : ∀ u, t₂ < u → u < t₁ → r.act u ≠ some (.sync (.answer d))

/-- A device does not author during its round. -/
theorem InRound.quiet (h : InRound r d t₀ t) : Quiet r d t₀ t := by
  intro u htu hut id changes ha
  rcases htu.lt_or_eq with hlt | rfl
  · exact h.running u hlt hut.le (r.step_of_act (hut.trans_le h.le) ha).idle_of_author
  · obtain ⟨batch, hb⟩ := h.begins
    rw [ha] at hb
    cases hb

/-- A round begins with the device idle. -/
private theorem InRound.idle (h : InRound r d t₀ t) : (r.state t₀).round d = none := by
  obtain ⟨batch, hb⟩ := h.begins
  exact (r.step_of_act (h.lt.trans_le h.le) hb).idle_of_beginRound

/-- **The page under consideration was answered in this round**: at an earlier time, since
when the device has only waited. -/
theorem exists_answer (r : NetRun ι) (ht : t ≤ r.length) {batch : ℕ} {touched : List ItemId}
    {page : EventsPage ItemEvent ItemId}
    (h : (r.state t).round d = some ⟨batch, .pulled touched page⟩) :
    ∃ t₂ < t, r.act t₂ = some (.sync (.answer d)) ∧
      page = (r.state t₂).server.eventsAfter ((r.state t₂).state d).pulled batch ∧
      ∀ u, t₂ < u → u ≤ t → (r.state u).state d = (r.state t₂).state d ∧
        (r.state u).round d = some ⟨batch, .pulled touched page⟩ := by
  induction t with
  | zero =>
    have hidle := (r.init_state.2.2.2 d).2.2
    rw [hidle] at h
    cases h
  | succ t ih =>
    have hearlier : (r.state (t + 1)).state d = (r.state t).state d →
        (r.state t).round d = some ⟨batch, .pulled touched page⟩ →
        ∃ t₂ < t + 1, r.act t₂ = some (.sync (.answer d)) ∧
          page = (r.state t₂).server.eventsAfter ((r.state t₂).state d).pulled batch ∧
          ∀ u, t₂ < u → u ≤ t + 1 → (r.state u).state d = (r.state t₂).state d ∧
            (r.state u).round d = some ⟨batch, .pulled touched page⟩ := by
      intro hstate hround
      obtain ⟨t₂, hlt, hact, hpage, hwait⟩ := ih (Nat.le_of_succ_le ht) hround
      refine ⟨t₂, hlt.trans (Nat.lt_succ_self t), hact, hpage, fun u hu hut => ?_⟩
      rcases Nat.of_le_succ hut with hut | rfl
      · exact hwait u hu hut
      · exact ⟨hstate.trans (hwait t hlt le_rfl).1, h⟩
    -- the last step left the device waiting, or it was the answer
    rcases r.step_cases ht with ⟨-, heq⟩ | ⟨a, ha, hstep⟩
    · exact hearlier (by rw [heq]) (heq ▸ h)
    · obtain ⟨hstate, hround | ⟨rfl, hpage⟩⟩ := pulled_of_step hstep h
      · exact hearlier hstate hround
      · refine ⟨t, Nat.lt_succ_self t, ha, hpage, fun u hu hut => ?_⟩
        obtain rfl : u = t + 1 := by omega
        exact ⟨hstate, h⟩

/-- **When a round returns `Ok`** nothing is unsynced, and at the last answer of the round the
cursor covered the whole stream. -/
theorem ReturnsOk.spec {t₀ t₁ : ℕ} (h : ReturnsOk r d t₀ t₁) :
    (r.state t₁).toReplicas.Synced d ∧
      ∃ t₂, LastAnswer r d t₀ t₁ t₂ ∧ (r.state t₂).state d = (r.state t₁).state d ∧
        (r.state t₂).cursor d = (r.state t₂).server.entries.length := by
  obtain ⟨a, touched, -, hret⟩ := h.returns
  obtain ⟨rfl, batch, page, hround, hnil⟩ := returns_eq_some hret
  have hinv := r.inv h.lt.le
  refine ⟨(hinv.phase d _ hround).1, ?_⟩
  obtain ⟨t₂, hlt, hact, hpage, hwait⟩ := r.exists_answer h.lt.le hround
  have hlt₂ : t₂ < r.length := hlt.trans h.lt
  have hbefore : t₀ < t₂ := by
    by_contra hle
    rcases Nat.lt_or_eq_of_le (not_lt.mp hle) with hlt₀ | rfl
    · -- the device waits for its page at `t₀`, but it begins a round there
      have hwait₀ := (hwait t₀ hlt₀ h.inRound.lt.le).2
      rw [h.inRound.idle] at hwait₀
      cases hwait₀
    · obtain ⟨batch', hb⟩ := h.inRound.begins
      rw [hact] at hb
      cases hb
  refine ⟨t₂, ⟨hbefore, hlt, hact, fun u hu hut ha => ?_⟩, (hwait t₁ hlt le_rfl).1.symm, ?_⟩
  · -- a later answer would find the device waiting for a page, which it has
    obtain ⟨batch', touched', hpull⟩ := (r.step_of_act (hut.trans h.lt) ha).pull_of_answer
    rw [(hwait u hu hut.le).2] at hpull
    cases hpull
  · -- the page is empty although its limit is positive: nothing is after the cursor
    have hsound := r.sound hlt₂.le
    have hpos : 0 < batch := hinv.batch_pos d _ hround
    rw [hpage, hsound.server_wf.eventsAfter_events, List.take_eq_nil_iff] at hnil
    have hdrop := List.drop_eq_nil_iff.mp (hnil.resolve_left hpos.ne')
    exact le_antisymm (hsound.cursor_le d) hdrop

private theorem ReturnsOk.quiet {t₀ t₁ : ℕ} (h : ReturnsOk r d t₀ t₁) : Quiet r d t₀ (t₁ + 1) := by
  intro u hu hut id changes ha
  rcases Nat.lt_succ_iff_lt_or_eq.mp hut with hlt | rfl
  · exact h.inRound.quiet u hu hlt id changes ha
  · obtain ⟨a, -, ha', -⟩ := h.returns
    rw [ha] at ha'
    cases ha'

/-- After a round returned `Ok` the device has nothing unsynced. -/
theorem ReturnsOk.synced {t₀ t₁ : ℕ} (h : ReturnsOk r d t₀ t₁) :
    (r.state (t₁ + 1)).toReplicas.Synced d :=
  Quiet.synced (fun u hu => h.quiet u (h.inRound.lt.le.trans hu)) (Nat.le_succ t₁) h.lt h.spec.1

end NetRun

end OfflineSync
