import TheSix.Planes.Rounds

/-!
# Writes under pressure

How a whole `set` of one client ends when the rungs keep to `BoundedTier` (`set_ends`), and what
follows for the client: whether the write is accepted depends on the room that at most sixteen rounds of
reclaiming make, and a write that is refused in the end has still cost what its rounds gave up.
-/

namespace TheSix

open Coroutine

variable {T V : Type} [CacheTier T V] [BoundedTier T V]

namespace Planes

variable {P P' : Planes T} {key : KeyRef} {tiers : ℕ}

theorem Intact.exec (h : P.Intact) {q : Req V} {a : q.Answer} {o : Outcome V}
    (hexec : Planes.exec key q o P = some (a, P')) : P'.Intact := by
  cases q with
  | peek | acquire | setState | publish | failWithError | invalidate | release | prepare | commit
  | abort | abortProvenClean | reserveEviction | tierContains | fetch | sleep | yieldNow | tierHealth =>
    simp only [Planes.exec, Option.some.injEq, Prod.mk.injEq, onSlot] at hexec
    obtain ⟨-, rfl⟩ := hexec
    exact h
  | evictionCandidate rung =>
    simp only [Planes.exec, Option.some.injEq, Prod.ext_iff] at hexec
    rw [← hexec.2]
    exact h.nominate rung
  | removeIfAddress rung address =>
    simp only [Planes.exec, Option.some.injEq, Prod.ext_iff] at hexec
    rw [← hexec.2]
    exact h.takeOut rung address
  | tierGet rung =>
    simp only [Planes.exec, Option.some.injEq, Prod.mk.injEq, onRung] at hexec
    obtain ⟨-, rfl⟩ := hexec
    exact h.putRung (BoundedTier.valid_get _ _ (h rung)) rung
  | tierSet rung v ttl =>
    simp only [Planes.exec, Option.some.injEq, Prod.mk.injEq, onRung] at hexec
    obtain ⟨-, rfl⟩ := hexec
    exact h.putRung (BoundedTier.valid_set _ _ _ _ (h rung)) rung
  | tierRemove rung =>
    simp only [Planes.exec, Option.some.injEq, Prod.mk.injEq, onRung] at hexec
    obtain ⟨-, rfl⟩ := hexec
    exact h.putRung (BoundedTier.valid_remove _ _ (h rung)) rung
  | register notify =>
    cases notify <;> simp only [Planes.exec, Option.some.injEq, Prod.mk.injEq] at hexec <;>
      obtain ⟨-, rfl⟩ := hexec <;> exact h
  | notified epoch =>
    simp only [Planes.exec] at hexec
    split_ifs at hexec <;> simp only [Option.some.injEq, Prod.mk.injEq] at hexec <;>
      obtain ⟨-, rfl⟩ := hexec <;> exact h
  | record rung result =>
    simp only [Planes.exec, Option.some.injEq, Prod.mk.injEq] at hexec
    obtain ⟨-, rfl⟩ := hexec
    intro r
    rw [recordOutcome_placement, recordOutcome_rungs]
    exact h r

theorem Intact.runOn (h : P.Intact) {c : Call V} {o : ℕ → Req V → Outcome V} {r : Reply V} {n : ℕ}
    (hrun : c.runOn tiers o P = some (r, P', n)) : P'.Intact := by
  have hstep : ∀ {s s' : Planes T × ℕ} {q : Req V} {x : q.Answer}, s.1.Intact →
      serve c.key o q s = some (x, s') → s'.1.Intact :=
    fun h hserve => h.exec (exec_of_serve hserve)
  exact Prog.eval_keeps (J := fun s => s.1.Intact) hstep h hrun

/-- **The rungs keep to their contract** throughout a client's calls. -/
theorem Intact.runs (h : P.Intact) {acts : List (Act V)} {replies : List (Reply V × ℕ)}
    (hruns : P.runs tiers acts = some (replies, P')) : P'.Intact :=
  runs_keeps (fun _ h => h) (fun h hrun => h.runOn hrun) h hruns

omit [CacheTier T V] [BoundedTier T V] in
/-- What the policy decides about a write, on what it is shown. -/
def decision (P : Planes T) (a : Args) (key : KeyRef) : PolicyDecision :=
  let snapshot := (P.slots (P.address key)).peek P.now
  a.select (.fromSnapshot snapshot (P.failures snapshot.tier))

end Planes

namespace Manager

open Planes

variable {P : Planes T} {key : KeyRef} {o : ℕ → Req V → Outcome V} {n tiers : ℕ} {a : Args} {v : V}

omit [BoundedTier T V] in
/-- The gates of a write. -/
theorem set_gates (hk : a.keyRef = .ok key) :
    (Manager.set tiers a v).eval (serve key o) (P, n) =
      if a.authenticated = false then some (.error .unauthenticated, P, n)
      else if (P.decision a key).authorized = false then some (.error .unauthorized, P, n)
      else if (P.decision a key).tier = authorityTier then some (.error .policyDenied, P, n)
      else (setPasses tiers a v (P.decision a key).tier 17 .tierUnavailable).eval (serve key o)
        (P, n) := by
  have hhealth : ∀ rung, serve key o (.tierHealth rung) (P, n) = some (P.failures rung, P, n) :=
    fun _ => rfl
  have hdecision : a.select (.fromSnapshot ((P.slots (P.address key)).peek P.now)
    (P.failures ((P.slots (P.address key)).peek P.now).tier)) = P.decision a key := rfl
  unfold Manager.set
  cases ha : a.authenticated with
  | false => simp [Args.admitWrite, Args.checkAuth, ha, bind, Except.bind]
  | true =>
    have hgate : a.admitWrite = .ok () := by
      simp [Args.admitWrite, Args.checkAuth, ha, hk, bind, Except.bind, pure, Except.pure]
    simp only [hgate, call, noTelemetry_eq, Prog.req_bind, Prog.ret_bind]
    rw [Prog.eval_req serve_peek, Prog.eval_req (hhealth _), hdecision]
    cases hauth : (P.decision a key).authorized with
    | false => simp [Args.authorize, hauth]
    | true =>
      simp only [Args.authorize, hauth, if_true, Bool.true_eq_false, if_false]
      split_ifs
      · rfl
      · rfl

omit [BoundedTier T V] in
theorem walk_unbound {rungs : List TierId} (h : rungs.any (hasTier tiers) = false) (e : CacheError) :
    (walk tiers a v rungs e).eval (serve key o) (P, n) = some (.nextRung e, P, n) := by
  induction rungs with
  | nil => rfl
  | cons rung rungs ih =>
    rw [List.any_cons, Bool.or_eq_false_iff] at h
    rw [walk, if_pos h.1]
    exact ih h.2

/-- **How a write ends**: at its gates, for want of a bound rung, or as its passes end. -/
theorem set_ends (hP : P.Intact) (hq : P.Quiescent) (hk : a.keyRef = .ok key) :
    ∃ r P', (Call.set a v).runOn tiers o P = some (.done r, P', 0) ∧
      (PassesEnd tiers key a v (P.decision a key).tier 17 (o 0) P r P' ∨
        r ≠ .ok () ∧ r ≠ .error .capacityExhausted ∧
          (a.authenticated = true → (P.decision a key).authorized = true →
            (descent (P.decision a key).tier).any (hasTier tiers) = false)) := by
  have hcall : (Call.set a v : Call V).key = key := by simp [Call.key, hk, Except.toOption]
  rw [Call.runOn, hcall, Call.prog, Prog.eval_map, set_gates hk]
  split_ifs with hauth hallow htier
  · exact ⟨_, P, rfl, Or.inr (by simp [hauth])⟩
  · exact ⟨_, P, rfl, Or.inr (by simp [hallow])⟩
  · exact ⟨_, P, rfl, Or.inr (by simp [htier, authorityTier, descent])⟩
  · cases hb : (descent (P.decision a key).tier).any (hasTier tiers) with
    | true =>
      obtain ⟨r, P', heval, hends⟩ := setPasses_ends (a := a) (v := v) (o := o) (n := 0) hb 17 hP
        (.refl (hq (P.address key))) .tierUnavailable (by simp)
      rw [heval]
      exact ⟨r, P', rfl, Or.inl hends⟩
    | false =>
      rw [setPasses, Prog.eval_bind, walk_unbound hb]
      exact ⟨_, P, rfl, Or.inr (by simp)⟩

end Manager

omit [BoundedTier T V] in
/-- Readers that are told the same by the planes get the same reply. -/
theorem Planes.Quiescent.get_replyOn {P P' : Planes T} {tiers : ℕ} {key : KeyRef} (hP : P.Quiescent)
    (hP' : P'.Quiescent) (hsame : P'.answer tiers key = P.answer tiers key) {b : Args}
    (hk : b.keyRef = .ok key) (o : ℕ → Req V → Outcome V) :
    (Call.get b).replyOn tiers o P' = (Call.get b).replyOn tiers o P := by
  cases hgate : b.admitEncoded with
  | error e => simp [Call.replyOn, Call.runOn, Call.prog, Manager.get, hgate]
  | ok d =>
    rw [Manager.get_replyOn hgate hk (hP _).notInFlight (hP _).notPrepared,
      Manager.get_replyOn hgate hk (hP' _).notInFlight (hP' _).notPrepared, hsame]

variable {tiers : ℕ} {p : Placement} {rungs : TierId → T}

/-- The standard library's default hasher on three keys. -/
def defaultHasher (key : KeyRef) : UInt64 :=
  if key = [0, 97] then 0xe9df4569c19cc6c0
  else if key = [0, 98] then 0xb29ddd40b8dca833
  else 0x6c04844bc77fa5be

/-- An empty rung with two shards of one slot each. -/
def ShardedTierStub.twoShards : ShardedTierStub (List UInt8) :=
  ⟨[.oneSlot, .oneSlot], 1, defaultHasher⟩

example : ShardedTierStub.withShards defaultHasher 2 1 = .ok ShardedTierStub.twoShards := by
  have hshards : Nat.nextPowerOfTwo 2 = 2 := by decide +kernel
  simp only [ShardedTierStub.withShards, Nat.reduceLeDiff, sup_of_le_left, hshards]
  rfl

/-- One rung of two shards. -/
def Planes.twoSharded : Planes (ShardedTierStub (List UInt8)) := .empty .default fun _ => .twoShards

/-- The first shard is full with a value that was invalidated, and the second one with a value that can
be read. -/
def fillBoth : List (Act (List UInt8)) :=
  [{ call := .set (.naming [0, 97] .L0 none) [1] },
    { call := .invalidate (.naming [0, 97] .L0 none) },
    { call := .set (.naming [0, 98] .L0 none) [2] }]

section Stubs

variable {V : Type} [IntegrityCheck V]

theorem Planes.takes_iff {P : Planes (StubTier V)} (hP : P.Intact) {tiers : ℕ} {tier : TierId}
    {key : KeyRef} {v : V} {ttl : Option ℕ} :
    P.Takes tiers tier key v ttl ↔ ∃ rung ∈ Manager.descent tier,
      Manager.hasTier tiers rung = true ∧ (P.rungs rung).hasRoom key P.now = true := by
  have hroom : ∀ rung, P.accepts key v ttl rung = (P.rungs rung).hasRoom key P.now :=
    fun rung => StubTier.Accounted.isOk_set (hP rung) key v ttl P.now
  simp only [Planes.Takes, hroom]

/-- **A write over in-memory rungs between the calls of one client is accepted** exactly when at most
sixteen rounds of reclaiming leave room for the key in a bound rung at or below the policy's choice. -/
theorem quiescent_set_ok_iff {tiers : ℕ} {rungs : TierId → StubTier V}
    (hrungs : ∀ rung, (rungs rung).IsNew) {acts : List (Act V)} {replies : List (Reply V × ℕ)}
    {P : Planes (StubTier V)}
    (hruns : (Planes.empty .default rungs).runs tiers acts = some (replies, P)) {a : Args}
    {key : KeyRef} {v : V} {o : ℕ → Req V → Outcome V} (hkey : a.keyRef = .ok key)
    (hauth : a.authenticated = true)
    (hpolicy : ∀ s, (a.select s).authorized = true ∧ (a.select s).tier.isCacheRung = true ∧
      Manager.hasTier tiers (a.select s).tier = true)
    (hroom : ∀ n q, (o n q).room = true) :
    (Call.set a v).replyOn tiers o P = some (.done (.ok ())) ↔
      ∃ n ≤ 16, ∃ P', P.reclaimed tiers n = some P' ∧
        ∃ rung ∈ Manager.descent (P.decision a key).tier, Manager.hasTier tiers rung = true ∧
          (P'.rungs rung).hasRoom key P'.now = true := by
  have hquiet : P.Quiescent := (Planes.quiescent_empty _ rungs).runs hruns
  have hintact : P.Intact :=
    Planes.Intact.runs (P := .empty .default rungs) (fun rung => (hrungs rung).accounted) hruns
  have htakes : ∀ {n P'}, P.reclaimed tiers n = some P' →
      (P'.Takes tiers (P.decision a key).tier key v a.ttl ↔ _) :=
    fun hr => Planes.takes_iff (hintact.reclaimed hr)
  obtain ⟨hauthorized, hcache, hbound⟩ : (P.decision a key).authorized = true ∧
    (P.decision a key).tier.isCacheRung = true ∧
      Manager.hasTier tiers (P.decision a key).tier = true := hpolicy _
  obtain ⟨r, P₁, hrun, hends⟩ : ∃ r P₁, (Call.set a v).runOn tiers o P = some (.done r, P₁, 0) ∧ _ :=
    Manager.set_ends hintact hquiet hkey
  rw [Call.replyOn, hrun]
  rcases hends with hends | ⟨-, -, hgate⟩
  · cases hends with
    | stored h =>
      obtain ⟨i, hi, P', hr, h⟩ := h
      exact iff_of_true rfl ⟨i, by omega, P', hr, (htakes hr).1 h⟩
    | exhausted h _ =>
      refine iff_of_false (by simp) ?_
      rintro ⟨i, hi, P', hr, hx⟩
      exact h i (by omega) P' hr ((htakes hr).2 hx)
    | full h =>
      obtain ⟨rung, hfull⟩ := h
      rw [hroom] at hfull
      cases hfull
  · have hdescent : (P.decision a key).tier ∈ Manager.descent (P.decision a key).tier := by
      rw [Manager.descent_eq, if_pos hcache]
      exact List.mem_cons_self
    have hno := hgate hauth hauthorized
    rw [List.any_eq_false] at hno
    exact absurd hbound (hno _ hdescent)

end Stubs

/-- One rung of one slot. -/
def Planes.oneFixed : Planes (StubTier (List UInt8)) := .empty .default fun _ => .fixed .oneSlot

/-- The only slot is full with a value that was invalidated. -/
def fillStale : List (Act (List UInt8)) :=
  [{ call := .set (.naming [0, 97] .L0 none) [1] },
    { call := .invalidate (.naming [0, 97] .L0 none) }]

/-- Nobody works on the only entry, and a write on another key is refused. -/
theorem fillStale_set_refused :
    (∀ rung, (Planes.oneFixed.rungs rung).IsNew) ∧
      (Planes.oneFixed.runs 1 fillStale).map (fun s => s.1.map Prod.fst) =
        some [.done (.ok ()), .done (.ok ())] ∧
      (Planes.oneFixed.runs 1 fillStale).bind (fun s =>
        (Call.set (.naming [0, 98] .L0 none) [2]).replyOn 1 (fun _ _ => {}) s.2) =
        some (.done (.error .capacityExhausted)) :=
  ⟨fun _ => .fixed (n := 1) rfl, by decide +kernel, by decide +kernel⟩

theorem fillStale_set_ok_iff :
    ∃ replies P, Planes.oneFixed.runs 1 fillStale = some (replies, P) ∧
      ((Call.set (.naming [0, 98] .L0 none) [2]).replyOn 1 (fun _ _ => {}) P =
          some (.done (.ok ())) ↔
        ∃ n ≤ 16, ∃ P', P.reclaimed 1 n = some P' ∧
          ∃ rung ∈ Manager.descent (P.decision (.naming [0, 98] .L0 none) [0, 98]).tier,
            Manager.hasTier 1 rung = true ∧ (P'.rungs rung).hasRoom [0, 98] P'.now = true) := by
  have hsome : (Planes.oneFixed.runs 1 fillStale).isSome = true := by decide +kernel
  obtain ⟨⟨replies, P⟩, hruns⟩ := Option.isSome_iff_exists.1 hsome
  exact ⟨replies, P, hruns, quiescent_set_ok_iff (fun _ => .fixed (n := 1) rfl) hruns rfl rfl
    (fun _ => ⟨rfl, rfl, rfl⟩) fun _ _ => rfl⟩

end TheSix
