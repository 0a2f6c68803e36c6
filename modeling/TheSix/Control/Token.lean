import TheSix.Control.KeySlot
import TheSix.Lib.Run

/-!
# Whose intent a commit consumes

`prepare` hands out a token, and `commit` is meant to consume the intent that very `prepare`
recorded. `TokenLedger` keeps, beside the key's entry and the issued tokens, which `prepare`
recorded the outstanding intent and which of them have committed. `LinearAt` is the promise about
one `commit`.

A token is only the pair of a generation and a target, and `prepare` does not advance the
generation, so an older token of the same generation commits the intent of a later `prepare`. The
promise holds along a history exactly as long as nobody presents such a token (`PresentsLast`),
provided intents do not nest (`UnwindsOnce`): a clean abort over a nested `prepare` and a bare
`set_state` each leave a `Prepared` entry that carries no intent.
-/

namespace TheSix

/-- The outstanding intent of a key. -/
def KeySlot.outstanding (s : KeySlot) : Option CommitIntent := s.bind (·.intent)

@[simp] theorem KeySlot.outstanding_none : KeySlot.outstanding none = none := rfl

@[simp] theorem KeySlot.outstanding_some (e : ControlEntry) :
    KeySlot.outstanding (some e) = e.intent := rfl

/-- A key's entry with its issued tokens, the number of the `prepare` that recorded the
outstanding intent, and the numbers of the `prepare`s whose token was committed. -/
structure TokenLedger where
  plane : PlaneState
  recorded : Option ℕ
  committed : List ℕ

namespace TokenLedger

/-- Nothing was written yet. -/
def fresh (a : KeyAddress) : TokenLedger where
  plane := { address := a, slot := none, tokens := [] }
  recorded := none
  committed := []

/-- The ledger after a call. A `prepare` that succeeds owns the outstanding intent until the
entry carries none. -/
def step (l : TokenLedger) (c : PlaneCall) : TokenLedger where
  plane := l.plane.step c
  recorded :=
    match c.op with
    | .prepare expected tier kind =>
      match l.plane.prepared c expected tier kind with
      | .ok _ => some l.plane.tokens.length
      | .error _ => l.recorded
    | _ => if (l.plane.slotAfter c).outstanding.isSome then l.recorded else none
  committed :=
    match c.op with
    | .commit issued ttl =>
      if l.plane.commitAnswer c.now issued ttl = some (.ok ()) then issued :: l.committed
      else l.committed
    | _ => l.committed

/-- A `commit` that answers `Ok` consumes the intent its own `prepare` recorded, and for the first
time. -/
def LinearAt (l : TokenLedger) (c : PlaneCall) : Prop :=
  match c.op with
  | .commit issued ttl =>
    l.plane.commitAnswer c.now issued ttl = some (.ok ()) →
      l.recorded = some issued ∧ issued ∉ l.committed
  | _ => True

/-- A token presented while the entry is `Prepared` at its generation is the one of the last
`prepare`. -/
def PresentsLast (l : TokenLedger) (c : PlaneCall) : Prop :=
  match c.op with
  | .commit issued _ =>
    ∀ token e, l.plane.tokens[issued]? = some token → l.plane.slot = some e →
      e.state = .prepared → e.generation = token.generation → issued + 1 = l.plane.tokens.length
  | _ => True

/-- No clean abort meets an entry that was prepared on top of a `Prepared` one, and no `set_state`
makes an entry without an intent `Prepared`. -/
def UnwindsOnce (l : TokenLedger) (c : PlaneCall) : Prop :=
  match c.op with
  | .abortProvenClean _ _ =>
    ∀ e, l.plane.slot = some e → e.state = .prepared → e.intentPrevState ≠ .prepared
  | .setState .prepared => l.plane.slot.outstanding.isSome
  | _ => True

end TokenLedger

/-! ## What one call does to the intent -/

namespace ControlEntry

/-- A method that records no intent. -/
def KeepsIntent {β : Type} (f : ControlEntry → β × ControlEntry) : Prop :=
  ∀ e, (f e).2.intent = e.intent ∨ (f e).2.intent = none

/-- An entry that is `Prepared` carries an intent. -/
def Held (e : ControlEntry) : Prop := e.state = .prepared → e.intent.isSome

theorem held_of_ne {e : ControlEntry} (h : e.state ≠ .prepared) : e.Held := fun hp => absurd hp h

theorem abortInner_intent (e : ControlEntry) (error : CacheError) (clean : Bool) :
    (e.abortInner error clean).intent = e.intent ∨ (e.abortInner error clean).intent = none := by
  unfold abortInner
  split <;> simp

theorem commit_intent (e : ControlEntry) (token : CommitToken) (ttl : Option ℕ) (now : ℕ) :
    (e.commit token ttl now).2.intent = e.intent ∨ (e.commit token ttl now).2.intent = none := by
  unfold commit
  split <;> simp

theorem Held.commit {e : ControlEntry} (h : e.Held) (token : CommitToken) (ttl : Option ℕ)
    (now : ℕ) : (e.commit token ttl now).2.Held := by
  unfold ControlEntry.commit
  split
  · exact h
  · exact held_of_ne (by simp)

theorem Held.abort {e : ControlEntry} (h : e.Held) (error : CacheError) : (e.abort error).Held := by
  unfold ControlEntry.abort abortInner
  split
  · exact h
  · exact held_of_ne (by simp)

end ControlEntry

namespace KeySlot

open ControlEntry

variable {β : Type} {s : KeySlot} {f : ControlEntry → β × ControlEntry}

theorem outstanding_withEntry (m : β) (h : KeepsIntent f) :
    (s.withEntry m f).2.outstanding = s.outstanding ∨ (s.withEntry m f).2.outstanding = none := by
  cases s with
  | none => exact Or.inl rfl
  | some e => exact h e

theorem outstanding_withOrCreate (a : KeyAddress) (room : Bool) (m : β) (h : KeepsIntent f) :
    (s.withOrCreate a room m f).2.outstanding = s.outstanding ∨
      (s.withOrCreate a room m f).2.outstanding = none := by
  cases s with
  | none =>
    cases room
    · exact Or.inl rfl
    · exact h _
  | some e => exact h e

/-- Every entry that is there carries an intent when it is `Prepared`. -/
def Held (s : KeySlot) : Prop := ∀ e, s = some e → e.Held

theorem Held.withEntry (hs : s.Held) (m : β) (h : ∀ e, s = some e → e.Held → (f e).2.Held) :
    (s.withEntry m f).2.Held := by
  cases s with
  | none => exact hs
  | some e =>
    rintro e' ⟨⟩
    exact h e rfl (hs e rfl)

theorem Held.withOrCreate (hs : s.Held) (a : KeyAddress) (room : Bool) (m : β)
    (h : ∀ e, (s = some e ∨ s = none ∧ e = { address := a }) → e.Held → (f e).2.Held) :
    (s.withOrCreate a room m f).2.Held := by
  cases s with
  | none =>
    cases room
    · exact hs
    · rintro e' ⟨⟩
      exact h _ (Or.inr ⟨rfl, rfl⟩) (held_of_ne (by simp))
  | some e =>
    rintro e' ⟨⟩
    exact h e (Or.inl rfl) (hs e rfl)

end KeySlot

namespace PlaneState

open ControlEntry

variable {s : PlaneState} {c : PlaneCall}

/-- Only `prepare` records an intent: any other call keeps the outstanding one or clears it. -/
theorem outstanding_slotAfter (h : ∀ g t k, c.op ≠ .prepare g t k) :
    (s.slotAfter c).outstanding = s.slot.outstanding ∨ (s.slotAfter c).outstanding = none := by
  unfold slotAfter
  cases hop : c.op with
  | prepare g t k => exact absurd hop (h g t k)
  | acquire t =>
    refine KeySlot.outstanding_withOrCreate _ _ _ fun e => ?_
    cases hc : e.state.isClaimable
    · simp [acquire_of_not_claimable hc]
    · simp [acquire_of_claimable hc]
  | publish g t ttl =>
    refine KeySlot.outstanding_withEntry _ fun e => ?_
    unfold publish
    split <;> simp
  | failWithError e => exact KeySlot.outstanding_withEntry _ fun _ => by simp
  | release => exact KeySlot.outstanding_withEntry _ fun _ => by simp
  | invalidate => exact KeySlot.outstanding_withEntry _ fun _ => by simp [invalidate]
  | setGeneration g => exact KeySlot.outstanding_withOrCreate _ _ _ fun _ => by simp
  | setTier t => exact KeySlot.outstanding_withOrCreate _ _ _ fun _ => by simp
  | setState st => exact KeySlot.outstanding_withOrCreate _ _ _ fun _ => by simp
  | peek => exact Or.inl rfl
  | bumpGeneration => exact KeySlot.outstanding_withOrCreate _ _ _ fun _ => by simp [bumpGeneration]
  | releasePopulationClaim =>
    refine KeySlot.outstanding_withEntry _ fun e => ?_
    unfold releasePopulationClaim
    split <;> simp
  | reserveEviction =>
    refine KeySlot.outstanding_withEntry _ fun e => ?_
    unfold reserveEviction
    split_ifs <;> simp
  | commit n ttl =>
    dsimp only
    cases s.tokens[n]? with
    | none => exact Or.inl rfl
    | some token => exact KeySlot.outstanding_withEntry _ fun e => e.commit_intent token ttl c.now
  | abort n e =>
    dsimp only
    cases s.tokens[n]? with
    | none => exact Or.inl rfl
    | some token => exact KeySlot.outstanding_withEntry _ fun e' => e'.abortInner_intent e false
  | abortProvenClean n e =>
    dsimp only
    cases s.tokens[n]? with
    | none => exact Or.inl rfl
    | some token => exact KeySlot.outstanding_withEntry _ fun e' => e'.abortInner_intent e true
  | sweepExpired =>
    refine KeySlot.outstanding_withEntry _ fun e => ?_
    unfold sweepExpired
    split_ifs <;> simp
  | abortIntentByAddress e =>
    refine KeySlot.outstanding_withEntry _ fun e' => ?_
    unfold abortIntentByAddress
    split_ifs <;> simp
  | resolveIntent intent direction =>
    cases direction with
    | abort => exact KeySlot.outstanding_withEntry _ fun e' => e'.abortInner_intent _ false
    | completeForward =>
      exact KeySlot.outstanding_withEntry _ fun e => e.commit_intent _ none c.now
    | externalReconciliation => exact Or.inl rfl

end PlaneState

namespace TokenLedger

open ControlEntry

variable {l : TokenLedger} {c : PlaneCall}

/-- While intents do not nest, a `Prepared` entry carries its intent after each call. -/
theorem held_slotAfter (hs : l.plane.slot.Held) (hu : l.UnwindsOnce c) :
    (l.plane.slotAfter c).Held := by
  unfold PlaneState.slotAfter
  unfold UnwindsOnce at hu
  cases hop : c.op with
  | acquire t =>
    refine hs.withOrCreate _ _ _ fun e _ he => ?_
    cases hc : e.state.isClaimable
    · simpa [acquire_of_not_claimable hc] using he
    · simpa [acquire_of_claimable hc] using held_of_ne (by simp)
  | publish g t ttl =>
    refine hs.withEntry _ fun e _ he => ?_
    unfold publish
    split
    · exact he
    · exact held_of_ne (by simp)
  | failWithError e => exact hs.withEntry _ fun _ _ _ => held_of_ne (by simp)
  | release => exact hs.withEntry _ fun _ _ _ => held_of_ne (by simp)
  | invalidate => exact hs.withEntry _ fun _ _ _ => held_of_ne (by simp [invalidate])
  | setGeneration g => exact hs.withOrCreate _ _ _ fun _ _ he => he
  | setTier t => exact hs.withOrCreate _ _ _ fun _ _ he => he
  | setState st =>
    refine hs.withOrCreate _ _ _ fun e hor he => ?_
    by_cases hst : st = .prepared
    · subst hst
      simp only [hop] at hu
      rcases hor with hsome | ⟨hnone, -⟩
      · intro _
        simpa [hsome] using hu
      · simp [hnone] at hu
    · exact held_of_ne (by simpa using hst)
  | peek => exact hs
  | bumpGeneration => exact hs.withOrCreate _ _ _ fun _ _ he => he
  | releasePopulationClaim =>
    refine hs.withEntry _ fun e _ he => ?_
    unfold releasePopulationClaim
    split
    · exact he
    · exact held_of_ne (by simp)
  | reserveEviction =>
    refine hs.withEntry _ fun e _ he => ?_
    unfold reserveEviction
    split_ifs
    · exact he
    · exact he
    · exact held_of_ne (by simp)
  | prepare g t k =>
    refine hs.withOrCreate _ _ _ fun e _ he => ?_
    unfold prepare
    split
    · exact he
    · intro _
      simp
  | commit n ttl =>
    dsimp only
    cases l.plane.tokens[n]? with
    | none => exact hs
    | some token => exact hs.withEntry _ fun e _ he => he.commit token ttl c.now
  | abort n e =>
    dsimp only
    cases l.plane.tokens[n]? with
    | none => exact hs
    | some token => exact hs.withEntry _ fun e' _ he => he.abort e
  | abortProvenClean n error =>
    dsimp only
    simp only [hop] at hu
    cases l.plane.tokens[n]? with
    | none => exact hs
    | some token =>
      refine hs.withEntry _ fun e hsome he => ?_
      by_cases hp : e.state = .prepared
      · exact held_of_ne (by simpa [abortProvenClean, abortInner_of_prepared hp] using hu e hsome hp)
      · simpa [abortProvenClean, abortInner_of_ne hp] using he
  | sweepExpired =>
    refine hs.withEntry _ fun e _ he => ?_
    unfold sweepExpired
    split_ifs
    · exact he
    · exact held_of_ne (by simp)
    · exact he
  | abortIntentByAddress e =>
    refine hs.withEntry _ fun e' _ he => ?_
    unfold abortIntentByAddress
    split_ifs
    · exact he
    · exact he
    · exact held_of_ne (by simp)
  | resolveIntent intent direction =>
    cases direction with
    | abort => exact hs.withEntry _ fun e' _ he => he.abort _
    | completeForward => exact hs.withEntry _ fun e _ he => he.commit _ none c.now
    | externalReconciliation => exact hs

/-! ## The ledger's invariant -/

/-- The ledger names the `prepare` behind the outstanding intent, and it is always the last one. -/
structure Tracks (l : TokenLedger) : Prop where
  recorded_iff : l.recorded.isSome = l.plane.slot.outstanding.isSome
  last : ∀ n, l.recorded = some n → n + 1 = l.plane.tokens.length

/-- The `prepare` behind the outstanding intent has not committed, and an entry that is `Prepared`
carries its intent. -/
structure Sound (l : TokenLedger) : Prop extends Tracks l where
  pending : ∀ n, l.recorded = some n → n ∉ l.committed
  issued : ∀ n ∈ l.committed, n < l.plane.tokens.length
  held : l.plane.slot.Held

theorem tracks_fresh (a : KeyAddress) : (fresh a).Tracks where
  recorded_iff := rfl
  last := by simp [fresh]

theorem sound_fresh (a : KeyAddress) : (fresh a).Sound where
  toTracks := tracks_fresh a
  pending := by simp [fresh]
  issued := by simp [fresh]
  held := by simp [KeySlot.Held, fresh]

theorem step_recorded_of_ne (h : ∀ g t k, c.op ≠ .prepare g t k) :
    (l.step c).recorded =
      if (l.plane.slotAfter c).outstanding.isSome then l.recorded else none := by
  cases hop : c.op <;> simp_all [step]

theorem step_tokens_of_ne (h : ∀ g t k, c.op ≠ .prepare g t k) :
    (l.step c).plane.tokens = l.plane.tokens := by
  cases hop : c.op <;> simp_all [step, PlaneState.step]

theorem step_slot : (l.step c).plane.slot = l.plane.slotAfter c := rfl

/-- What a `commit` that answers `Ok` found: its token was issued, and the entry was `Prepared` at
the token's generation. -/
theorem commitAnswer_ok {s : PlaneState} {now n : ℕ} {ttl : Option ℕ}
    (h : s.commitAnswer now n ttl = some (.ok ())) :
    ∃ token e, s.tokens[n]? = some token ∧ s.slot = some e ∧ e.generation = token.generation ∧
      e.state = .prepared := by
  obtain ⟨token, ht, hc⟩ := Option.map_eq_some_iff.1 h
  cases hs : s.slot with
  | none => simp [hs, KeySlot.commit] at hc
  | some e =>
    by_cases hlive : e.generation = token.generation ∧ e.state = .prepared
    · exact ⟨token, e, ht, rfl, hlive⟩
    · simp [hs, KeySlot.commit, ControlEntry.commit_of_dead hlive] at hc

/-- A `commit` that answers `Ok` leaves no intent. -/
theorem outstanding_of_commit_ok {n : ℕ} {ttl : Option ℕ} (hop : c.op = .commit n ttl)
    (h : l.plane.commitAnswer c.now n ttl = some (.ok ())) :
    (l.plane.slotAfter c).outstanding = none := by
  obtain ⟨token, e, ht, hs, hg, hp⟩ := commitAnswer_ok h
  simp [PlaneState.slotAfter, hop, ht, hs, KeySlot.commit, ControlEntry.commit_of_live hg hp]

theorem step_committed :
    (l.step c).committed = l.committed ∨
      ∃ n ttl, c.op = .commit n ttl ∧ l.plane.commitAnswer c.now n ttl = some (.ok ()) ∧
        (l.step c).committed = n :: l.committed := by
  cases hop : c.op with
  | commit n ttl =>
    by_cases h : l.plane.commitAnswer c.now n ttl = some (.ok ())
    · exact Or.inr ⟨n, ttl, rfl, h, by simp [step, hop, h]⟩
    · exact Or.inl (by simp [step, hop, h])
  | _ => exact Or.inl (by simp [step, hop])

/-- A `prepare` that succeeds leaves its intent; one that is refused leaves the intent there was. -/
theorem outstanding_prepare (s : PlaneState) (c : PlaneCall) (g : Option Generation) (t : TierId)
    (k : IntentKind) :
    ((s.slot.prepare s.address c.room g t k c.now).2).outstanding.isSome =
      ((s.prepared c g t k).isOk || s.slot.outstanding.isSome) := by
  unfold PlaneState.prepared KeySlot.prepare
  cases s.slot with
  | none =>
    cases hr : c.room
    · rfl
    · simp only [KeySlot.withOrCreate, ControlEntry.prepare, if_true]
      split <;> simp [Except.isOk, Except.toBool]
  | some e =>
    simp only [KeySlot.withOrCreate_some, ControlEntry.prepare]
    split <;> simp [Except.isOk, Except.toBool]

/-- A `prepare` that answers `Ok` is recorded, and one that is refused changes nothing. -/
theorem step_prepare {g : Option Generation} {t : TierId} {k : IntentKind}
    (hop : c.op = .prepare g t k) :
    ((l.step c).recorded = l.recorded ∧ (l.step c).plane.tokens = l.plane.tokens ∧
      (l.plane.slotAfter c).outstanding.isSome = l.plane.slot.outstanding.isSome) ∨
    ((l.step c).recorded = some l.plane.tokens.length ∧
      (l.step c).plane.tokens.length = l.plane.tokens.length + 1 ∧
      (l.plane.slotAfter c).outstanding.isSome = true) := by
  have hout : (l.plane.slotAfter c).outstanding.isSome =
      ((l.plane.prepared c g t k).isOk || l.plane.slot.outstanding.isSome) := by
    simpa only [PlaneState.slotAfter, hop] using outstanding_prepare l.plane c g t k
  cases hans : l.plane.prepared c g t k with
  | error err =>
    refine Or.inl ⟨by simp [step, hop, hans], by simp [step, PlaneState.step, hop, hans], ?_⟩
    rw [hout, hans]
    rfl
  | ok token =>
    refine Or.inr ⟨by simp [step, hop, hans], by simp [step, PlaneState.step, hop, hans], ?_⟩
    rw [hout, hans]
    rfl

/-- Any call but `prepare` keeps the recorded `prepare` or forgets it. -/
theorem recorded_of_step_ne (h : ∀ g t k, c.op ≠ .prepare g t k) {n : ℕ}
    (hn : (l.step c).recorded = some n) : l.recorded = some n := by
  rw [step_recorded_of_ne h] at hn
  split at hn
  · exact hn
  · cases hn

/-- Each call keeps track of the last `prepare`. -/
theorem Tracks.step (h : l.Tracks) (c : PlaneCall) : (l.step c).Tracks := by
  by_cases hp : ∃ g t k, c.op = .prepare g t k
  · obtain ⟨g, t, k, hop⟩ := hp
    rcases step_prepare (l := l) hop with ⟨hrec, htok, hout⟩ | ⟨hrec, htok, hout⟩
    · exact ⟨by rw [hrec, h.recorded_iff, step_slot, hout], by rw [hrec, htok]; exact h.last⟩
    · refine ⟨by rw [hrec, step_slot, hout]; rfl, fun n hn => ?_⟩
      rw [hrec] at hn
      obtain rfl := Option.some.inj hn
      exact htok.symm
  · have hne : ∀ g t k, c.op ≠ .prepare g t k := fun g t k hop => hp ⟨g, t, k, hop⟩
    refine ⟨?_, fun n hn => ?_⟩
    · rw [step_recorded_of_ne hne, step_slot]
      rcases PlaneState.outstanding_slotAfter (s := l.plane) hne with heq | hnone
      · rw [heq, ← h.recorded_iff]
        cases l.recorded <;> rfl
      · simp [hnone]
    · rw [step_tokens_of_ne hne]
      exact h.last n (recorded_of_step_ne hne hn)

/-- Each call keeps the ledger sound while intents do not nest. -/
theorem Sound.step (h : l.Sound) (hu : l.UnwindsOnce c) : (l.step c).Sound := by
  refine ⟨h.toTracks.step c, ?_, ?_, held_slotAfter h.held hu⟩
  · intro n hn hmem
    rcases step_committed (l := l) (c := c) with heq | ⟨m, ttl, hop, hok, -⟩
    · rw [heq] at hmem
      by_cases hp : ∃ g t k, c.op = .prepare g t k
      · obtain ⟨g, t, k, hop⟩ := hp
        rcases step_prepare (l := l) hop with ⟨hrec, -, -⟩ | ⟨hrec, -, -⟩ <;> rw [hrec] at hn
        · exact h.pending n hn hmem
        · obtain rfl := Option.some.inj hn
          exact Nat.lt_irrefl _ (h.issued _ hmem)
      · exact h.pending n (recorded_of_step_ne (fun g t k hop => hp ⟨g, t, k, hop⟩) hn) hmem
    · rw [step_recorded_of_ne (by simp [hop]), outstanding_of_commit_ok hop hok] at hn
      cases hn
  · intro n hn
    have hlen : l.plane.tokens.length ≤ (l.step c).plane.tokens.length := by
      by_cases hp : ∃ g t k, c.op = .prepare g t k
      · obtain ⟨g, t, k, hop⟩ := hp
        rcases step_prepare (l := l) hop with ⟨-, htok, -⟩ | ⟨-, htok, -⟩ <;> rw [htok]
        exact Nat.le_succ _
      · rw [step_tokens_of_ne fun g t k hop => hp ⟨g, t, k, hop⟩]
    refine Nat.lt_of_lt_of_le ?_ hlen
    rcases step_committed (l := l) (c := c) with heq | ⟨m, ttl, hop, hok, heq⟩
    · exact h.issued n (heq ▸ hn)
    · rw [heq] at hn
      rcases List.mem_cons.1 hn with rfl | hn
      · obtain ⟨token, e, ht, -⟩ := commitAnswer_ok hok
        exact (List.getElem?_eq_some_iff.1 ht).1
      · exact h.issued n hn

/-! ## Linearity of the tokens -/

/-- In a sound ledger, a call keeps the promise exactly when it presents no token but the last. -/
theorem linearAt_iff (h : l.Sound) : l.LinearAt c ↔ l.PresentsLast c := by
  unfold LinearAt PresentsLast
  cases hop : c.op with
  | commit n ttl =>
    constructor
    · intro hlin token e ht hs hp hg
      refine h.last n (hlin ?_).1
      simp [PlaneState.commitAnswer, ht, hs, KeySlot.commit, ControlEntry.commit_of_live hg hp]
    · intro hlast hok
      obtain ⟨token, e, ht, hs, hg, hp⟩ := commitAnswer_ok hok
      have hlen := hlast token e ht hs hp hg
      -- the entry is held, so some `prepare` is recorded, and it is the last one
      have hsome : l.recorded.isSome = true := by
        rw [h.recorded_iff, hs]
        exact h.held e hs hp
      obtain ⟨m, hm⟩ := Option.isSome_iff_exists.1 hsome
      have hmn : m = n := by
        have := h.last m hm
        omega
      subst hmn
      exact ⟨hm, h.pending m hm⟩
  | _ => exact Iff.rfl

/-- **When a commit consumes its own intent.** Along every history of control-plane calls on one
key in which intents do not nest, every `commit` that answers `Ok` consumes the intent its own
`prepare` recorded, once, exactly when no call presents an older token at the generation of a
`Prepared` entry. -/
theorem linear_iff_presentsLast (a : KeyAddress) (calls : List PlaneCall)
    (hu : Run.Along step UnwindsOnce (fresh a) calls) :
    Run.Along step LinearAt (fresh a) calls ↔ Run.Along step PresentsLast (fresh a) calls :=
  Run.along_congr_of_inv (fun _ _ (hl : Sound _) hu => hl.step hu)
    (fun _ _ hl _ => linearAt_iff hl) (sound_fresh a) hu

/-- Two writers prepare on one rung, the second on top of the first, and the token of one of them
is presented. -/
def racingPrepares (presented : ℕ) : List PlaneCall :=
  [⟨1, true, .prepare none .L1 .write⟩, ⟨2, true, .prepare none .L1 .write⟩,
    ⟨3, true, .commit presented none⟩]

theorem linear_iff_presentsLast_racingPrepares :
    Run.Along step UnwindsOnce (fresh (.of [107] .default)) (racingPrepares 1) ∧
      (Run.Along step LinearAt (fresh (.of [107] .default)) (racingPrepares 1) ↔
        Run.Along step PresentsLast (fresh (.of [107] .default)) (racingPrepares 1)) :=
  have hu : Run.Along step UnwindsOnce (fresh (.of [107] .default)) (racingPrepares 1) :=
    ⟨trivial, trivial, trivial, trivial⟩
  ⟨hu, linear_iff_presentsLast _ _ hu⟩

/-- The first writer's token commits the second writer's intent. -/
theorem racingPrepares_commits_foreign_intent :
    ¬Run.Along step LinearAt (fresh (.of [107] .default)) (racingPrepares 0) := by
  rintro ⟨-, -, h, -⟩
  exact absurd (h (by decide)).1 (by decide)

end TokenLedger

end TheSix
