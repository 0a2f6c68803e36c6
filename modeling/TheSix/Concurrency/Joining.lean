import TheSix.Manager.System

/-!
# The callers of one population

The callers of `get_or_fetch` that join one population: the first one claims the key and populates
it, the others see it `InFlight` and wait. `Part` is where a caller stands and what it has learnt,
and `joining` is the discipline of the callers, on rungs that are maps and without timeouts.
`getOrFetch_joining` says that the program of `get_or_fetch` keeps to it, and what it returns from
where it stands.
-/

namespace TheSix

open Coroutine

variable {V : Type}

namespace Manager

/-- How a population ends by the answer of its last fetch, on rungs that are maps. -/
def populationEnds (tiers : ℕ) (d : PolicyDecision) : Except CacheError V → Except CacheError V
  | .error e => .error e
  | .ok v => if nearestBoundRung tiers d.tier = none then .error .tierUnavailable else .ok v

end Manager

open Manager

/-! ## The parts of the callers -/

/-- Where a caller stands. -/
inductive Part (V : Type)
  /-- It has not acquired the key. -/
  | outside
  /-- A waiter: it has seen the population, it has registered, it is to be notified, it knows that
  the population has ended, it has looked at the entry, it has read the rung. -/
  | joined
  | registered (epoch : ℕ)
  | watching (epoch : ℕ)
  | awake
  | looked (s : ControlSnapshot)
  | read (s : ControlSnapshot) (x : Option V)
  /-- The owner: it is to fetch, it has a value, it has stored it, it has published it, an attempt
  has failed, the population has failed and some rungs were passed over, a rung may be read, a copy
  was found there. -/
  | owning (g : Generation)
  | fetched (g : Generation) (v : V)
  | stored (g : Generation) (rung : TierId) (v : V)
  | published (v : V)
  | failing (g : Generation) (e : CacheError)
  | failed (e : CacheError) (passed : List TierId)
  | asked (e : CacheError) (passed : List TierId) (rung : TierId)
  | found (e : CacheError) (rung : TierId) (v : V)
  /-- It was dropped. -/
  | dropped

/-- A caller's decision, and where it stands. -/
structure Standing (V : Type) where
  decision : PolicyDecision
  part : Part V

namespace Part

/-- The requests a caller may make. -/
inductive Allows (tiers : ℕ) (d : PolicyDecision) : Part V → Req V → Prop
  | acquire (tier : TierId) : Allows tiers d .outside (.acquire tier)
  | register {notify : NotifyRef} (h : notify = .entry) :
      Allows tiers d .joined (.register notify)
  | peek (n : ℕ) : Allows tiers d (.registered n) .peek
  | notified (n : ℕ) : Allows tiers d (.watching n) (.notified (some n))
  | look : Allows tiers d .awake .peek
  | read (s : ControlSnapshot) : Allows tiers d (.looked s) (.tierGet s.tier)
  | fetch (g : Generation) : Allows tiers d (.owning g) .fetch
  | store (g : Generation) (v : V) {rung : TierId} (h : nearestBoundRung tiers d.tier = some rung)
      (ttl : Option ℕ) : Allows tiers d (.fetched g v) (.tierSet rung v ttl)
  | record (g : Generation) (rung : TierId) (v : V) (r : Except CacheError Unit) :
      Allows tiers d (.stored g rung v) (.record rung r)
  | publish (g : Generation) (rung : TierId) (v : V) (ttl : Option ℕ) :
      Allows tiers d (.stored g rung v) (.publish g rung ttl)
  | sleep (g : Generation) (e : CacheError) : Allows tiers d (.failing g e) .sleep
  | fail (g : Generation) (e : CacheError) : Allows tiers d (.failing g e) (.failWithError e)
  | health {e : CacheError} (passed : List TierId) {rung : TierId} (ho : d.failMode = .open)
      (he : e ≠ .staleGeneration) (hl : rung ∈ cacheLadder) (hb : hasTier tiers rung = true) :
      Allows tiers d (.failed e passed) (.tierHealth rung)
  | scan (e : CacheError) (passed : List TierId) (rung : TierId) :
      Allows tiers d (.asked e passed rung) (.tierGet rung)
  | cleanup (q : Req V) : Allows tiers d .dropped q

/-- Where an answer may lead a caller. -/
inductive Next (tiers : ℕ) (d : PolicyDecision) : Part V → (q : Req V) → q.Answer → Part V → Prop
  | join {tier : TierId} {s : ControlSnapshot} (hs : s.state = .inFlight)
      (ho : s.populationOwner = false) (hn : s.notify = .entry) :
      Next tiers d .outside (.acquire tier) (.ok s) .joined
  | claim {tier : TierId} {s : ControlSnapshot} (hs : s.state = .inFlight)
      (ho : s.populationOwner = true) :
      Next tiers d .outside (.acquire tier) (.ok s) (.owning s.generation)
  | register (notify : NotifyRef) (n : ℕ) :
      Next tiers d .joined (.register notify) (some n) (.registered n)
  | busy (n : ℕ) {s : ControlSnapshot} (h : s.state.Busy) :
      Next tiers d (.registered n) .peek s (.watching n)
  | settled (n : ℕ) {s : ControlSnapshot} (h : ¬s.state.Busy) :
      Next tiers d (.registered n) .peek s .awake
  | notified (n : ℕ) : Next tiers d (.watching n) (.notified (some n)) (.ok ()) .awake
  | look (s : ControlSnapshot) : Next tiers d .awake .peek s (.looked s)
  | read (s : ControlSnapshot) (x : Option V) :
      Next tiers d (.looked s) (.tierGet s.tier) (.ok x) (.read s x)
  | fetch (g : Generation) {r : Except CacheError V} {v : V}
      (h : populationEnds tiers d r = .ok v) : Next tiers d (.owning g) .fetch r (.fetched g v)
  | refuse (g : Generation) {r : Except CacheError V} {e : CacheError}
      (h : populationEnds tiers d r = .error e) : Next tiers d (.owning g) .fetch r (.failing g e)
  | store (g : Generation) (v : V) (rung : TierId) (ttl : Option ℕ) :
      Next tiers d (.fetched g v) (.tierSet rung v ttl) (.ok ()) (.stored g rung v)
  | record (g : Generation) (rung : TierId) (v : V) (r : Except CacheError Unit) :
      Next tiers d (.stored g rung v) (.record rung r) () (.stored g rung v)
  | publish (g : Generation) (rung : TierId) (v : V) (ttl : Option ℕ) :
      Next tiers d (.stored g rung v) (.publish g rung ttl) (.ok ()) (.published v)
  | sleep (g : Generation) (e : CacheError) : Next tiers d (.failing g e) .sleep () (.owning g)
  | fail (g : Generation) (e : CacheError) (r : Except CacheError Unit) :
      Next tiers d (.failing g e) (.failWithError e) r (.failed e [])
  | opened (e : CacheError) (passed : List TierId) (rung : TierId) {n : ℕ}
      (h : isCircuitOpen n = true) :
      Next tiers d (.failed e passed) (.tierHealth rung) n (.failed e (rung :: passed))
  | ask (e : CacheError) (passed : List TierId) (rung : TierId) {n : ℕ}
      (h : isCircuitOpen n = false) :
      Next tiers d (.failed e passed) (.tierHealth rung) n (.asked e passed rung)
  | empty (e : CacheError) (passed : List TierId) (rung : TierId) :
      Next tiers d (.asked e passed rung) (.tierGet rung) (.ok none) (.failed e (rung :: passed))
  | found (e : CacheError) (passed : List TierId) (rung : TierId) (v : V) :
      Next tiers d (.asked e passed rung) (.tierGet rung) (.ok (some v)) (.found e rung v)
  | cleanup (q : Req V) (r : q.Answer) : Next tiers d .dropped q r .dropped

/-- What a waiter makes of the entry it has looked at, when it reads nothing. -/
def refusal (tiers : ℕ) (s : ControlSnapshot) : Option CacheError :=
  match s.lastError with
  | some e => some e
  | none =>
    if s.state.isReadable = false then some .miss
    else if hasTier tiers s.tier = false then some .tierUnavailable
    else none

/-- How a caller that has returned has ended. -/
def Ends (tiers : ℕ) (d : PolicyDecision) : Part V → Except CacheError V → Prop
  | .outside, _ => True
  | .looked s, r => ∃ e, refusal tiers s = some e ∧ r = .error e
  | .read s x, r => refusal tiers s = none ∧ r = x.elim (.error .miss) .ok
  | .published v, r => r = .ok v
  | .failed e passed, r => r = .error e ∧ (d.failMode = .closed ∨ e = .staleGeneration ∨
      ∀ rung ∈ cacheLadder, hasTier tiers rung = true → rung ∈ passed)
  | .found _ _ v, r => r = .ok v
  | _, _ => False

end Part

/-- The discipline of the callers. -/
def joining (V : Type) (tiers : ℕ) : Discipline (Standing V) Fn (Req V) Req.Answer where
  ok φ _ q := φ.part.Allows tiers φ.decision q
  tr φ _ q r φ' := φ'.decision = φ.decision ∧ φ.part.Next tiers φ.decision q r φ'.part
  cancel φ := { φ with part := .dropped }

/-- How a call ends; a dropped one ends nowhere else. -/
def Standing.Final (tiers : ℕ) (φ : Standing V) : Option (Reply V) → Prop
  | none => φ.part = .dropped
  | some r => ∃ x, r = .fetched x ∧ φ.part.Ends tiers φ.decision x

/-! ## The programs keep to the discipline -/

namespace Manager

variable {tiers : ℕ} {d : PolicyDecision} {Dn : Fn → Standing V → Prop} {R : Type}

theorem unwinds_dropped (hDn : ∀ l, Dn l ⟨d, .dropped⟩) (l : Fn) (cs : List (Req V)) :
    (joining V tiers).unwinds Dn l cs ⟨d, .dropped⟩ := by
  induction cs with
  | nil => exact hDn l
  | cons c cs ih =>
    refine ⟨.cleanup c, ?_⟩
    rintro r ⟨d', part⟩ ⟨hd, hnext⟩
    cases hnext
    obtain rfl : d' = d := hd
    exact ih

/-- A request that is allowed, and whatever it leads to. -/
theorem wp_request (hDn : ∀ l, Dn l ⟨d, .dropped⟩) {part : Part V} {l : Fn} {q : Req V}
    {cancel : Option (List (Req V))} {k : q.Answer → Step V R} {Post : Standing V → R → Prop}
    (hok : part.Allows tiers d q)
    (hnext : ∀ r part', part.Next tiers d q r part' → (k r).wp (joining V tiers) Dn Post ⟨d, part'⟩) :
    (Prog.req l q cancel k).wp (joining V tiers) Dn Post ⟨d, part⟩ := by
  refine ⟨hok, ?_, ?_⟩
  · rintro r ⟨d', part'⟩ ⟨hd, h⟩
    obtain rfl : d' = d := hd
    exact hnext r part' h
  · rintro cs -
    refine ⟨unwinds_dropped hDn l cs, ?_⟩
    rintro r ⟨d', part'⟩ ⟨hd, -⟩
    obtain rfl : d' = d := hd
    exact unwinds_dropped hDn l cs

theorem waitForPopulation_joining (hDn : ∀ l, Dn l ⟨d, .dropped⟩) {s : ControlSnapshot}
    (hn : s.notify = .entry) :
    (waitForPopulation s).wp (joining V tiers) Dn (fun φ r => φ = ⟨d, .awake⟩ ∧ r = .ok ())
      ⟨d, .joined⟩ := by
  simp only [waitForPopulation, call, await, Prog.req_bind, Prog.ret_bind]
  refine wp_request hDn (.register hn) ?_
  intro epoch part h
  cases h with
  | register _ n =>
    refine wp_request hDn (.peek n) ?_
    intro now part h
    cases h with
    | busy _ hbusy =>
      rw [if_neg (by
        rintro ⟨hf, hp⟩
        exact hbusy.elim hf hp)]
      refine wp_request hDn (.notified n) ?_
      intro r part h
      cases h
      exact ⟨rfl, rfl⟩
    | settled _ hidle =>
      rw [if_pos ⟨fun hf => hidle (Or.inl hf), fun hp => hidle (Or.inr hp)⟩]
      exact ⟨rfl, rfl⟩

theorem waitAndGet_joining (hDn : ∀ l, Dn l ⟨d, .dropped⟩) {s : ControlSnapshot}
    (hn : s.notify = .entry) :
    (waitAndGet tiers s).wp (joining V tiers) Dn (fun φ r => φ.part.Ends tiers φ.decision r)
      ⟨d, .joined⟩ := by
  simp only [waitAndGet, Prog.wp_bind]
  refine Prog.wp_mono ?_ (waitForPopulation_joining hDn hn)
  rintro φ r ⟨rfl, rfl⟩
  simp only [call, noTelemetry_eq, await, Prog.req_bind, Prog.ret_bind]
  refine wp_request hDn .look ?_
  intro after part h
  cases h
  cases hl : after.lastError with
  | some e => exact ⟨e, by simp [Part.refusal, hl], rfl⟩
  | none =>
    simp only [Prog.wp_ite]
    refine ⟨fun hr => ⟨_, by simp [Part.refusal, hl, hr], rfl⟩, fun hr => ?_⟩
    refine ⟨fun hb => ⟨_, by simp [Part.refusal, hl, hr, hb], rfl⟩, fun hb => ?_⟩
    refine wp_request hDn (.read after) ?_
    intro r part h
    cases h with
    | read _ x =>
      cases x with
      | none => exact ⟨by simp [Part.refusal, hl, hr, hb], rfl⟩
      | some v => exact ⟨by simp [Part.refusal, hl, hr, hb], rfl⟩

theorem populateOnce_joining (hDn : ∀ l, Dn l ⟨d, .dropped⟩) (a : Args) (g : Generation) :
    (populateOnce tiers a d g).wp (joining V tiers) Dn
      (fun φ r => (∃ v, φ = ⟨d, .published v⟩ ∧ r = .ok v) ∨
        ∃ e, φ = ⟨d, .failing g e⟩ ∧ r = .error e) ⟨d, .owning g⟩ := by
  simp only [populateOnce, call, noTelemetry_eq, await, Prog.req_bind, Prog.ret_bind]
  refine wp_request hDn (.fetch g) ?_
  intro r part h
  cases h with
  | refuse _ hends =>
    cases r with
    | error e =>
      obtain rfl := Except.error.inj hends
      exact Or.inr ⟨_, rfl, rfl⟩
    | ok v =>
      simp only [populationEnds] at hends
      split_ifs at hends with hnear
      obtain rfl := Except.error.inj hends
      simp only [hnear]
      exact Or.inr ⟨_, rfl, rfl⟩
  | fetch _ hends =>
    cases r with
    | error e => cases hends
    | ok v =>
      simp only [populationEnds] at hends
      split_ifs at hends with hnear
      obtain rfl := Except.ok.inj hends
      obtain ⟨rung, hrung⟩ := Option.ne_none_iff_exists'.1 hnear
      simp only [hrung]
      refine wp_request hDn (.store g v hrung a.ttl) ?_
      intro r part h
      cases h
      refine wp_request hDn (.record g rung v _) ?_
      intro r part h
      cases h
      refine wp_request hDn (.publish g rung v a.ttl) ?_
      intro r part h
      cases h
      exact Or.inl ⟨v, rfl, rfl⟩

theorem populateAttempts_joining (hDn : ∀ l, Dn l ⟨d, .dropped⟩) (a : Args) (g : Generation)
    (retries : ℕ) :
    (populateAttempts tiers a d g retries).wp (joining V tiers) Dn
      (fun φ r => (∃ v, φ = ⟨d, .published v⟩ ∧ r = .ok v) ∨
        ∃ e, φ = ⟨d, .failing g e⟩ ∧ r = .error e) ⟨d, .owning g⟩ := by
  induction retries with
  | zero => exact populateOnce_joining hDn a g
  | succ retries ih =>
    simp only [populateAttempts, Prog.wp_bind]
    refine Prog.wp_mono ?_ (populateOnce_joining hDn a g)
    rintro φ r (⟨v, rfl, rfl⟩ | ⟨e, rfl, rfl⟩)
    · exact Or.inl ⟨v, rfl, rfl⟩
    · simp only [Prog.wp_ite]
      refine ⟨fun _ => ?_, fun _ => Or.inr ⟨e, rfl, rfl⟩⟩
      simp only [await, noTelemetry_eq, Prog.req_bind, Prog.ret_bind]
      refine wp_request hDn (.sleep g e) ?_
      intro r part h
      cases h
      exact ih

theorem scanRungs_joining (hDn : ∀ l, Dn l ⟨d, .dropped⟩) (hopen : d.failMode = .open)
    {e : CacheError} (he : e ≠ .staleGeneration) {rungs passed : List TierId} (hladder : rungs ⊆ cacheLadder)
    (hpassed : ∀ rung ∈ cacheLadder, hasTier tiers rung = true → rung ∈ passed ∨ rung ∈ rungs) :
    (scanRungs tiers e rungs).wp (joining V tiers) Dn
      (fun φ r => φ.part.Ends tiers φ.decision r) ⟨d, .failed e passed⟩ := by
  induction rungs generalizing passed with
  | nil =>
    refine ⟨rfl, Or.inr (Or.inr fun rung hr hb => ?_)⟩
    exact (hpassed rung hr hb).resolve_right List.not_mem_nil
  | cons rung rungs ih =>
    obtain ⟨hrung, hrungs⟩ := List.cons_subset.1 hladder
    have hpass : ∀ x ∈ cacheLadder, hasTier tiers x = true → x ∈ rung :: passed ∨ x ∈ rungs := by
      intro x hx hb
      rcases hpassed x hx hb with h | h
      · exact Or.inl (List.mem_cons_of_mem _ h)
      · rcases List.mem_cons.1 h with rfl | h
        · exact Or.inl List.mem_cons_self
        · exact Or.inr h
    simp only [scanRungs, Prog.wp_ite]
    refine ⟨fun hb => ih hrungs ?_, fun hb => ?_⟩
    · intro x hx hbx
      refine (hpassed x hx hbx).imp_right fun h => (List.mem_cons.1 h).resolve_left ?_
      rintro rfl
      rw [hb] at hbx
      cases hbx
    · simp only [call, noTelemetry_eq, await, Prog.req_bind, Prog.ret_bind]
      refine wp_request hDn (.health passed hopen he hrung (by simpa using hb)) ?_
      intro n part h
      simp only [Prog.wp_ite]
      cases h with
      | opened _ _ _ hn => exact ⟨fun _ => ih hrungs hpass, fun hc => absurd hn hc⟩
      | ask _ _ _ hn =>
        refine ⟨fun hc => absurd hc (by simp [hn]), fun _ => ?_⟩
        refine wp_request hDn (.scan e passed rung) ?_
        intro r part h
        cases h with
        | empty => exact ih hrungs hpass
        | found _ _ _ v => exact rfl

theorem becomePopulationOwner_joining (hDn : ∀ l, Dn l ⟨d, .dropped⟩) (a : Args) (g : Generation) :
    (becomePopulationOwner tiers a d g).wp (joining V tiers) Dn
      (fun φ r => φ.part.Ends tiers φ.decision r) ⟨d, .owning g⟩ := by
  simp only [becomePopulationOwner, Prog.wp_bind, Prog.wp_guarded, noTelemetry_eq]
  refine Prog.wp_mono ?_
    (populateAttempts_joining (fun l => unwinds_dropped hDn l [.failWithError .cancelled]) a g 2)
  rintro φ r (⟨v, rfl, rfl⟩ | ⟨e, rfl, rfl⟩)
  · exact rfl
  · simp only [call, Prog.req_bind, Prog.ret_bind]
    refine wp_request hDn (.fail g e) ?_
    intro r part h
    cases h
    simp only [Prog.wp_ite]
    refine ⟨fun he => ?_, fun he => ⟨fun hopen => ?_, fun hclosed => ?_⟩⟩
    · subst he
      exact ⟨rfl, Or.inr (Or.inl rfl)⟩
    · exact scanRungs_joining hDn hopen he (List.Subset.refl _) fun rung hr _ => Or.inr hr
    · refine ⟨rfl, Or.inl ?_⟩
      cases hd : d.failMode with
      | «open» => exact absurd hd hclosed
      | closed => rfl

/-- A caller that joins, or claims the key first, keeps to the discipline. -/
theorem fetchAttempts_joining (hDn : ∀ l, Dn l ⟨d, .dropped⟩) (a : Args) (attempts : ℕ) :
    (fetchAttempts tiers a d (attempts + 1)).wp (joining V tiers) Dn
      (fun φ r => φ.part.Ends tiers φ.decision r) ⟨d, .outside⟩ := by
  simp only [fetchAttempts, call, noTelemetry_eq, Prog.req_bind, Prog.ret_bind]
  refine wp_request hDn (.acquire d.tier) ?_
  intro r part h
  cases h with
  | join hs ho hn =>
    simp only [hs, ho, fetchFrom, joinOrPopulate, reduceCtorEq, false_and, if_false, and_self,
      if_true]
    exact waitAndGet_joining hDn hn
  | claim hs ho =>
    simp only [hs, ho, fetchFrom, joinOrPopulate, reduceCtorEq, Bool.true_eq_false, false_and,
      and_false, if_false]
    exact becomePopulationOwner_joining hDn a _

theorem getOrFetch_joining {a : Args} (hDn : ∀ l, Dn l ⟨a.select .new, .dropped⟩) :
    (getOrFetch tiers a).wp (joining V tiers) Dn
      (fun φ r => φ.part.Ends tiers φ.decision r) ⟨a.select .new, .outside⟩ := by
  unfold getOrFetch
  cases hd : a.admitPopulation with
  | error e => trivial
  | ok d =>
    obtain rfl := Args.eq_of_admitPopulation hd
    exact fetchAttempts_joining hDn a 7

theorem hasTier_of_nearestBoundRung {wanted rung : TierId}
    (h : nearestBoundRung tiers wanted = some rung) : hasTier tiers rung = true := by
  have hfrom : ∀ n, nearestFrom tiers n = some rung → hasTier tiers rung = true := by
    intro n
    induction n with
    | zero =>
      intro h
      simp only [nearestFrom, Option.ite_none_right_eq_some, Option.some.injEq] at h
      exact h.2 ▸ h.1
    | succ n ih =>
      intro h
      simp only [nearestFrom] at h
      split at h
      · cases h
      · split_ifs at h with hb
        · exact Option.some.inj h ▸ hb
        · exact ih h
  unfold nearestBoundRung at h
  split_ifs at h
  exact hfrom _ h

end Manager

end TheSix
