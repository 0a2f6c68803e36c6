import TheSix.Tier.Sled

/-!
# Lazy expiry under concurrency

Any number of calls on one `L4SledBackend`, interleaved request by request, on a sled that may fail
at any operation. A `get` that finds an expired record removes it in a step of its own, by the key,
so a `set` that lands in between loses its record (`lazyExpiry_loses_write`).

In the runs in which nothing is written between such a read and its removal (`ExpiryUndisturbed`),
lazy expiry deletes what it has read and nothing else, and a value that has been written is served
until its deadline (`lazyExpiry_deletes_only_expired`).
-/

namespace TheSix

open Coroutine L4SledBackend

variable {V : Type}

/-- A call of the tier. -/
inductive SledCall (V : Type)
  | get (key : KeyRef)
  | set (key : KeyRef) (v : V) (ttl : Option ℕ)
  | remove (key : KeyRef)
  | contains (key : KeyRef)

/-- What a call returns. -/
inductive SledResult (V : Type)
  | value (r : Except CacheError (Option V))
  | done (r : Except CacheError Unit)
  | present (r : Except CacheError Bool)

def SledCall.prog [ByteValue V] : SledCall V → SledStep (SledResult V)
  | .get key => .value <$> L4SledBackend.get key
  | .set key v ttl => .done <$> L4SledBackend.set key v ttl
  | .remove key => .done <$> L4SledBackend.remove key
  | .contains key => .present <$> L4SledBackend.contains V key

/-- The tier under concurrent calls. The environment lets time pass. -/
def sled (V : Type) [ByteValue V] :
    Machine (SledCall V) SledFn SledReq SledReq.Answer (SledResult V) SledWorld Bool ℕ where
  prog := SledCall.prog
  exec := SledWorld.exec
  env d w := { w with now := w.now + d }

/-- A state of the tier. -/
abbrev Sledding (V : Type) :=
  Sys (SledCall V) SledFn SledReq SledReq.Answer (SledResult V) SledWorld

/-- An answered request of the tier. -/
abbrev Sledded (V : Type) := Item (SledCall V) SledFn SledReq SledReq.Answer SledWorld

/-! ## What is to hold -/

/-- A record that a `get` takes for expired. -/
def Expires (now : ℕ) (raw : List UInt8) : Prop :=
  prefixLen ≤ raw.length ∧ isExpired now (Bytes.ofLe (raw.take expiryLen)) = true

instance (now : ℕ) (raw : List UInt8) : Decidable (Expires now raw) :=
  inferInstanceAs (Decidable (_ ∧ _))

/-- What a call other than `get` has made of the record of a key: written it, or removed it. -/
def written (key : KeyRef) : Sledded V → Option (Option (List UInt8))
  | ⟨_, _, _, .treeInsert k record, .ok (), _, _⟩ => if k = key then some (some record) else none
  | ⟨_, _, .remove, .treeRemove k, .ok (), _, _⟩ => if k = key then some none else none
  | _ => none

/-- The last write of a key in a trace. -/
def lastWrite (key : KeyRef) (trace : List (Sledded V)) : Option (Option (List UInt8)) :=
  trace.findSome? (written key)

/-- What a trace has grown by holds no read of a `get` of the thread. -/
def ReadsNoMore (i : ℕ) (trace trace' : List (Sledded V)) : Prop :=
  ∃ newer, newer ++ trace = trace' ∧ ∀ it ∈ newer, it.thread = i → it.site ≠ .getRead

/-- The last read of a `get` of the thread, which is of `key`, with what had happened before it. -/
structure ReadBy (i : ℕ) (key : KeyRef) (it : Sledded V) (older trace : List (Sledded V)) :
    Prop where
  last : ReadsNoMore i (it :: older) trace
  thread : it.thread = i
  site : it.site = .getRead
  req : it.req = .treeGet key

/-- Lazy expiry deletes only what expired. -/
structure DeletesOnlyExpired [ByteValue V] (s : Sledding V) : Prop where
  /-- A `get` removes the record that it has read and found expired, or nothing. -/
  removes : ∀ it ∈ s.trace, ∀ key raw, it.site = .getExpire key raw →
    (it.pre.tree key = none ∨ it.pre.tree key = some raw) ∧ Expires it.pre.now raw
  /-- A `get` returns the value whose record was last written before its own read, while the record
  is alive, or reports that sled has failed. -/
  returns : ∀ i key r, s.tasks i = some ⟨.get key, .ret (some (.value r))⟩ →
    ∃ it older, ReadBy i key it older s.trace ∧ ∀ record, lastWrite key older = some (some record) →
      ¬ Expires s.world.now record →
      ∃ set ∈ older, ∃ v ttl, set.call = .set key v ttl ∧ set.req = .treeInsert key record ∧
        (r = .ok (some v) ∨ r = .error .tierUnavailable)

/-- No write lands between a read that finds a record expired and the removal: none while a `get`
is about to remove, and none between the read of a `get` and the clock reading that finds its record
expired. -/
def ExpiryUndisturbed (s : Sledding V) (it : Sledded V) : Prop :=
  (∀ key record, it.req = .treeInsert key record → ∀ i raw, s.site i ≠ some (.getExpire key raw)) ∧
  ∀ key raw, it.site = .getDecode key raw → Expires s.world.now raw →
    s.world.tree key = none ∨ s.world.tree key = some raw

/-! ## Records over time -/

theorem Expires.mono {now now' : ℕ} (h : now ≤ now') {raw : List UInt8} (hraw : Expires now raw) :
    Expires now' raw := by
  obtain ⟨hlength, hexpired⟩ := hraw
  rw [isExpired_iff] at hexpired
  exact ⟨hlength, isExpired_iff.mpr ⟨hexpired.1, by omega⟩⟩

/-- A record is taken for expired exactly when it expires. -/
theorem decodeRecord_eq_none_iff [ByteValue V] {now : ℕ} {raw : List UInt8} :
    (decodeRecord now raw : Except CacheError (Option (ℕ × V))) = .ok none ↔ Expires now raw := by
  unfold decodeRecord Expires
  by_cases hlength : raw.length < prefixLen
  · simp [hlength, not_le.mpr hlength]
  · cases hexpired : isExpired now (Bytes.ofLe (raw.take expiryLen)) with
    | true => simp [hlength, hexpired, not_lt.mp hlength]
    | false =>
      simp only [hlength, if_false, hexpired, Bool.false_eq_true, and_false, iff_false]
      split_ifs
      · simp
      · cases (ByteValue.decodeBytes (raw.drop prefixLen) : Except CacheError V) <;>
          simp [Except.map]

/-- While it is alive, a record reads the same at any time. -/
theorem verdict_of_alive [ByteValue V] {now now' : ℕ} {raw : List UInt8} (h : ¬ Expires now raw)
    (h' : ¬ Expires now' raw) :
    (verdict now (some raw) : Except CacheError (Option V)) = verdict now' (some raw) := by
  unfold Expires at h h'
  simp only [verdict, decodeRecord]
  by_cases hlength : raw.length < prefixLen
  · rw [if_pos hlength, if_pos hlength]
  · have halive : ∀ {n}, ¬ (prefixLen ≤ raw.length ∧
        isExpired n (Bytes.ofLe (raw.take expiryLen)) = true) →
        isExpired n (Bytes.ofLe (raw.take expiryLen)) = false := by
      intro n hn
      rw [← Bool.not_eq_true]
      exact fun hexpired => hn ⟨not_lt.mp hlength, hexpired⟩
    rw [if_neg hlength, if_neg hlength, halive h, halive h']

/-! ## What is stored -/

/-- The record last written is stored, or has expired and been removed. -/
def RecordKept (w : SledWorld) (trace : List (Sledded V)) : Prop :=
  ∀ key record, lastWrite key trace = some (some record) →
    w.tree key = some record ∨ w.tree key = none ∧ Expires w.now record

/-- A `get` that is about to remove a record finds that record, expired, or nothing. -/
def Removable (w : SledWorld) (key : KeyRef) (raw : List UInt8) : Prop :=
  (w.tree key = none ∨ w.tree key = some raw) ∧ Expires w.now raw

/-- The requests that a site makes of the records. -/
def Sited (l : SledFn) (q : SledReq) : Prop :=
  (∀ key record, q = .treeInsert key record → l = .set) ∧
    ∀ key, q = .treeRemove key → l = .remove ∨ ∃ raw, l = .getExpire key raw

theorem SledWorld.exec_now {q : SledReq} {fails : Bool} {w w' : SledWorld} {a : q.Answer}
    (h : w.exec q fails = some (a, w')) : w'.now = w.now := by
  cases q <;> cases fails <;> cases h <;> rfl

theorem lastWrite_of_none {key : KeyRef} {it : Sledded V} (h : written key it = none)
    (older : List (Sledded V)) : lastWrite key (it :: older) = lastWrite key older := by
  simp [lastWrite, h]

theorem lastWrite_of_some {key : KeyRef} {it : Sledded V} {x : Option (List UInt8)}
    (h : written key it = some x) (older : List (Sledded V)) :
    lastWrite key (it :: older) = some x := by
  simp [lastWrite, h]

/-- Every request keeps what is stored, the removal by a `get` because of what it finds. -/
theorem RecordKept.answer {older : List (Sledded V)} {w w' : SledWorld} (h : RecordKept w older)
    {i : ℕ} {c : SledCall V} {l : SledFn} {q : SledReq} {fails : Bool} {a : q.Answer}
    (hexec : w.exec q fails = some (a, w')) (hsited : Sited l q)
    (hremovable : ∀ key raw, l = .getExpire key raw → Removable w key raw) :
    RecordKept w' (⟨i, c, l, q, a, w, w'⟩ :: older) := by
  intro key record hlast
  cases q with
  | treeGet k =>
    rw [lastWrite_of_none rfl] at hlast
    cases fails <;> cases hexec <;> exact h key record hlast
  | nowMillis =>
    rw [lastWrite_of_none rfl] at hlast
    cases hexec
    exact h key record hlast
  | treeInsert k new =>
    cases fails with
    | true =>
      cases hexec
      rw [lastWrite_of_none rfl] at hlast
      exact h key record hlast
    | false =>
      cases hexec
      by_cases hk : k = key
      · subst hk
        rw [lastWrite_of_some (show written k _ = some (some new) by simp [written])] at hlast
        cases hlast
        exact .inl (Function.update_self ..)
      · rw [lastWrite_of_none (by simp [written, hk])] at hlast
        dsimp only
        rw [Function.update_of_ne (Ne.symm hk)]
        exact h key record hlast
  | treeRemove k =>
    cases fails with
    | true =>
      cases hexec
      rw [lastWrite_of_none (by cases l <;> rfl)] at hlast
      exact h key record hlast
    | false =>
      cases hexec
      by_cases hk : k = key
      · subst hk
        rcases hsited.2 k rfl with hl | ⟨raw, hl⟩
        · subst hl
          rw [lastWrite_of_some (show written k _ = some none by simp [written])] at hlast
          cases hlast
        · -- lazy expiry: what is removed is what has expired
          subst hl
          rw [lastWrite_of_none rfl] at hlast
          obtain ⟨hfound, hexpired⟩ := hremovable k raw rfl
          refine .inr ⟨Function.update_self .., ?_⟩
          rcases h k record hlast with hstored | ⟨-, hrecord⟩
          · rcases hfound with hnone | hraw
            · simp [hnone] at hstored
            · obtain rfl : record = raw := by simpa [hstored] using hraw
              exact hexpired
          · exact hrecord
      · rw [lastWrite_of_none (by cases l <;> simp [written, hk])] at hlast
        dsimp only
        rw [Function.update_of_ne (Ne.symm hk)]
        exact h key record hlast

theorem RecordKept.tick {w : SledWorld} {trace : List (Sledded V)} (h : RecordKept w trace)
    (d : ℕ) : RecordKept { w with now := w.now + d } trace := by
  intro key record hlast
  rcases h key record hlast with hstored | ⟨hnone, hexpired⟩
  · exact .inl hstored
  · exact .inr ⟨hnone, hexpired.mono (Nat.le_add_right _ _)⟩

/-- What is found by a `get` about to remove is still there after the request of another thread,
unless that writes. -/
theorem Removable.answer {w w' : SledWorld} {key : KeyRef} {raw : List UInt8}
    (h : Removable w key raw) {q : SledReq} {fails : Bool} {a : q.Answer} (hexec : w.exec q fails = some (a, w'))
    (hinsert : ∀ record, q ≠ .treeInsert key record) : Removable w' key raw := by
  refine ⟨?_, by rw [SledWorld.exec_now hexec]; exact h.2⟩
  cases q with
  | treeGet k => cases fails <;> cases hexec <;> exact h.1
  | nowMillis => cases hexec; exact h.1
  | treeInsert k new =>
    cases fails with
    | true => cases hexec; exact h.1
    | false =>
      cases hexec
      have hk : key ≠ k := fun hk => hinsert new (by rw [hk])
      simpa [Function.update_of_ne hk] using h.1
  | treeRemove k =>
    cases fails with
    | true => cases hexec; exact h.1
    | false =>
      cases hexec
      by_cases hk : key = k
      · subst hk
        exact .inl (Function.update_self ..)
      · simpa [Function.update_of_ne hk] using h.1

/-! ## The way of a `get` -/

/-- How far a call is: a `get` carries the trace that ends with its read, another call nothing. -/
inductive SledPhase (V : Type)
  | other (c : SledCall V)
  | reading (key : KeyRef)
  | decoding (key : KeyRef) (log : List (Sledded V)) (raw : List UInt8)
  | expiring (key : KeyRef) (log : List (Sledded V)) (raw : List UInt8)
  | ended (key : KeyRef) (log : List (Sledded V)) (r : Except CacheError (Option V))
  | dropped

/-- The records that a call writes: a `set` those of its value. -/
def Stores [ByteValue V] (c : SledCall V) (q : SledReq) : Prop :=
  ∀ key record, q = .treeInsert key record →
    ∃ v ttl now, c = .set key v ttl ∧ encodeRecord now v ttl = .ok record

/-- The requests of a phase. -/
def SledPhase.Ok [ByteValue V] : SledPhase V → SledFn → SledReq → Prop
  | .other c, l, q => (l = .set ∨ l = .remove ∨ l = .contains) ∧ Sited l q ∧ Stores c q
  | .reading key, l, q => l = .getRead ∧ q = .treeGet key
  | .decoding key _ raw, l, q => l = .getDecode key raw ∧ q = .nowMillis
  | .expiring key _ raw, l, q => l = .getExpire key raw ∧ q = .treeRemove key
  | .ended .., _, _ | .dropped, _, _ => False

/-- What a `get` knows after its read: it goes on with a record, or has its result. -/
def SledPhase.AfterRead (key : KeyRef) (log : List (Sledded V)) :
    Except Unit (Option (List UInt8)) → SledPhase V
  | .ok (some raw) => .decoding key log raw
  | .ok none => .ended key log (.ok none)
  | .error () => .ended key log (.error .tierUnavailable)

/-- What a `get` does with the record it has read, when the clock shows `now`. -/
def SledPhase.afterDecode [ByteValue V] (key : KeyRef) (log : List (Sledded V)) (raw : List UInt8)
    (now : ℕ) : SledPhase V :=
  if Expires now raw then .expiring key log raw else .ended key log (verdict now (some raw))

/-- The phase after an answer. -/
def SledPhase.After [ByteValue V] : SledPhase V → (q : SledReq) → q.Answer → SledPhase V → Prop
  | .reading key, .treeGet _, a, φ' => ∃ log, φ' = .AfterRead key log a
  | .decoding key log raw, .nowMillis, now, φ' => φ' = .afterDecode key log raw now
  | .expiring key log _, _, _, φ' => φ' = .ended key log (.ok none)
  | .other c, _, _, φ' => φ' = .other c
  | _, _, _, _ => False

def sledDiscipline (V : Type) [ByteValue V] :
    Discipline (SledPhase V) SledFn SledReq SledReq.Answer where
  ok := SledPhase.Ok
  tr φ _ q a φ' := φ.After q a φ'
  cancel _ := .dropped

/-- What a call has returned in its last phase. -/
def SledPhase.Final : SledPhase V → Option (SledResult V) → Prop
  | .other _, r => ∀ v, r ≠ some (.value v)
  | .ended _ _ v, r => r = some (.value v)
  | .dropped, r => r = none
  | _, _ => False

/-- The phase in which a call starts. -/
def SledCall.phase : SledCall V → SledPhase V
  | .get key => .reading key
  | c => .other c

theorem SledCall.conforms [ByteValue V] (c : SledCall V) :
    (c.prog).wp (sledDiscipline V) (fun _ φ => φ.Final none) (fun φ r => φ.Final (some r))
      c.phase := by
  cases c with
  | get key =>
    simp only [prog, L4SledBackend.get, ask, Prog.req_bind, Prog.ret_bind, Prog.wp_map, phase]
    refine ⟨⟨rfl, rfl⟩, ?_, by simp⟩
    rintro (⟨⟩ | (_ | raw)) φ' ⟨log, rfl⟩
    · rfl
    · rfl
    · refine ⟨⟨rfl, rfl⟩, ?_, by simp⟩
      rintro now φ'' rfl
      have hnone : (decodeRecord now raw : Except CacheError (Option (ℕ × V))) = .ok none ↔
          Expires now raw := decodeRecord_eq_none_iff
      by_cases hexpires : Expires now raw
      · simp only [hnone.mpr hexpires, SledPhase.afterDecode, if_pos hexpires]
        exact ⟨⟨rfl, rfl⟩, by rintro a φ'' rfl; rfl, by simp⟩
      · simp only [SledPhase.afterDecode, if_neg hexpires, verdict]
        rw [← hnone] at hexpires
        cases hdecode : (decodeRecord now raw : Except CacheError (Option (ℕ × V))) with
        | error e => rfl
        | ok found =>
          cases found with
          | none => exact absurd hdecode hexpires
          | some dv => rfl
  | set key v ttl =>
    simp only [prog, L4SledBackend.set, ask, Prog.wp_map, phase]
    cases hencode : (ByteValue.encodeBytes v : Except CacheError (List UInt8)) with
    | error e => simp [SledPhase.Final]
    | ok payload =>
      simp only [Prog.req_bind, Prog.ret_bind]
      refine ⟨⟨.inl rfl, by simp [Sited], by simp [Stores]⟩, ?_, by simp⟩
      rintro now φ' rfl
      have hstores : Stores (.set key v ttl)
          (.treeInsert key (frame (deadlineAt now ttl) payload)) := by
        rintro _ _ ⟨⟩
        exact ⟨v, ttl, now, rfl, by rw [encodeRecord, hencode]; rfl⟩
      refine ⟨⟨.inl rfl, by simp [Sited], hstores⟩, ?_, by simp⟩
      rintro a φ' rfl
      simp [SledPhase.Final]
  | remove key =>
    simp only [prog, L4SledBackend.remove, ask, Prog.req_bind, Prog.ret_bind, Prog.wp_map, phase]
    refine ⟨⟨.inr (.inl rfl), by simp [Sited], by simp [Stores]⟩, ?_, by simp⟩
    rintro a φ' rfl
    simp [SledPhase.Final]
  | contains key =>
    simp only [prog, L4SledBackend.contains, ask, Prog.req_bind, Prog.ret_bind, Prog.wp_map, phase]
    refine ⟨⟨.inr (.inr rfl), by simp [Sited], by simp [Stores]⟩, ?_, by simp⟩
    rintro (⟨⟩ | (_ | raw)) φ' rfl
    · simp [SledPhase.Final]
    · simp [SledPhase.Final]
    · refine ⟨⟨.inr (.inr rfl), by simp [Sited], by simp [Stores]⟩, ?_, by simp⟩
      rintro now φ' rfl
      simp [SledPhase.Final]

/-! ## The invariant -/

/-- What the record of a key, as it was last written before a read of thread `i`, is known to be,
while it is alive. -/
def Knows (s : Sledding V) (i : ℕ) (key : KeyRef) (log : List (Sledded V))
    (P : List UInt8 → Prop) : Prop :=
  ∃ it older, log = it :: older ∧ ReadBy i key it older s.trace ∧
    ∀ record, lastWrite key older = some (some record) → ¬ Expires s.world.now record → P record

/-- What a phase knows. -/
def SledPhase.Knowing [ByteValue V] (s : Sledding V) (i : ℕ) : SledPhase V → Prop
  | .decoding key log raw | .expiring key log raw => Knows s i key log fun record => raw = record
  | .ended key log r => Knows s i key log fun record =>
      r = verdict s.world.now (some record) ∨ r = .error .tierUnavailable
  | _ => True

/-- The call that a phase is of. -/
def SledPhase.call : SledPhase V → Option (SledCall V)
  | .reading key | .decoding key _ _ | .expiring key _ _ | .ended key _ _ => some (.get key)
  | .other c => some c
  | .dropped => none

/-- What holds while the tier is used without disturbance. -/
structure SledInv [ByteValue V] (s : Sledding V) (φ : ℕ → SledPhase V) : Prop where
  kept : RecordKept s.world s.trace
  removable : ∀ i key raw, s.site i = some (.getExpire key raw) → Removable s.world key raw
  removes : ∀ it ∈ s.trace, ∀ key raw, it.site = .getExpire key raw → Removable it.pre key raw
  knowing : ∀ i, (φ i).Knowing s i
  stores : ∀ it ∈ s.trace, Stores it.call it.req
  calls : ∀ i c rest, s.tasks i = some ⟨c, rest⟩ → (φ i).call = some c ∨ φ i = .dropped

theorem ReadsNoMore.refl (i : ℕ) (trace : List (Sledded V)) : ReadsNoMore i trace trace :=
  ⟨[], rfl, by simp⟩

theorem ReadsNoMore.cons {i : ℕ} {it : Sledded V} (h : it.thread = i → it.site ≠ .getRead)
    (trace : List (Sledded V)) : ReadsNoMore i trace (it :: trace) :=
  ⟨[it], rfl, by simpa using h⟩

theorem ReadsNoMore.trans {i : ℕ} {trace trace' trace'' : List (Sledded V)}
    (h : ReadsNoMore i trace trace') (h' : ReadsNoMore i trace' trace'') :
    ReadsNoMore i trace trace'' := by
  obtain ⟨newer, rfl, hnewer⟩ := h
  obtain ⟨newest, rfl, hnewest⟩ := h'
  refine ⟨newest ++ newer, List.append_assoc .., fun it hit => ?_⟩
  rcases List.mem_append.1 hit with hit | hit
  · exact hnewest it hit
  · exact hnewer it hit

theorem ReadBy.mem {i : ℕ} {key : KeyRef} {it : Sledded V} {older trace : List (Sledded V)}
    (h : ReadBy i key it older trace) : it :: older <:+ trace := by
  obtain ⟨newer, htrace, -⟩ := h.last
  exact ⟨newer, htrace⟩

theorem Knows.mono {s s' : Sledding V} {i : ℕ} (htrace : ReadsNoMore i s.trace s'.trace)
    (hnow : s.world.now ≤ s'.world.now) {key : KeyRef} {log : List (Sledded V)}
    {P P' : List UInt8 → Prop} (h : Knows s i key log P)
    (hP : ∀ record, ¬ Expires s'.world.now record → P record → P' record) :
    Knows s' i key log P' := by
  obtain ⟨it, older, hlog, hread, hlast⟩ := h
  refine ⟨it, older, hlog, ⟨hread.last.trans htrace, hread.thread, hread.site, hread.req⟩, ?_⟩
  intro record hrecord halive
  exact hP record halive (hlast record hrecord fun hexpired => halive (hexpired.mono hnow))

theorem SledPhase.Knowing.mono [ByteValue V] {s s' : Sledding V} {i : ℕ}
    (htrace : ReadsNoMore i s.trace s'.trace) (hnow : s.world.now ≤ s'.world.now) {φ : SledPhase V} (h : φ.Knowing s i) :
    φ.Knowing s' i := by
  cases φ with
  | other c => trivial
  | reading key => trivial
  | dropped => trivial
  | decoding key log raw => exact Knows.mono htrace hnow h fun _ _ h => h
  | expiring key log raw => exact Knows.mono htrace hnow h fun _ _ h => h
  | ended key log r =>
    refine Knows.mono htrace hnow h ?_
    rintro record halive (hr | hr)
    · exact .inl (hr.trans (verdict_of_alive (fun hexpired => halive (hexpired.mono hnow)) halive))
    · exact .inr hr

/-- A pending request is one of its phase. -/
theorem ok_of_site [ByteValue V] {φ : SledPhase V} {rest : SledStep (Option (SledResult V))}
    (h : Machine.Conforms (sledDiscipline V) SledPhase.Final φ rest) {l : SledFn}
    (hsite : rest.site = some l) : ∃ q, φ.Ok l q := by
  cases rest with
  | ret r => cases hsite
  | req l' q cancel k =>
    cases hsite
    exact ⟨q, h.1⟩

theorem SledPhase.Ok.sited [ByteValue V] {φ : SledPhase V} {l : SledFn} {q : SledReq}
    (h : φ.Ok l q) : Sited l q := by
  cases φ with
  | other c => exact h.2.1
  | reading key => obtain ⟨rfl, rfl⟩ := h; simp [Sited]
  | decoding key log raw => obtain ⟨rfl, rfl⟩ := h; simp [Sited]
  | expiring key log raw => obtain ⟨rfl, rfl⟩ := h; simp [Sited]
  | ended key log r => exact h.elim
  | dropped => exact h.elim

theorem site_unwind {l l' : SledFn} {cs : List SledReq}
    (h : (Prog.unwind l cs : SledStep (Option (SledResult V))).site = some l') : l = l' := by
  cases cs with
  | nil => cases h
  | cons q cs => exact Option.some.inj h

theorem SledPhase.Ok.after [ByteValue V] {φ : SledPhase V} {l : SledFn} {q : SledReq}
    (h : φ.Ok l q) (a : q.Answer) : ∃ φ', φ.After q a φ' := by
  cases φ with
  | other c => exact ⟨_, rfl⟩
  | reading key => obtain ⟨rfl, rfl⟩ := h; exact ⟨_, [], rfl⟩
  | decoding key log raw => obtain ⟨rfl, rfl⟩ := h; exact ⟨_, rfl⟩
  | expiring key log raw => exact ⟨_, rfl⟩
  | ended key log r => exact h.elim
  | dropped => exact h.elim

theorem SledPhase.Ok.stores [ByteValue V] {φ : SledPhase V} {l : SledFn} {q : SledReq}
    (h : φ.Ok l q) {c : SledCall V} (hc : φ.call = some c) : Stores c q := by
  cases φ with
  | other c' =>
    obtain rfl : c' = c := by simpa [call] using hc
    exact h.2.2
  | reading key => obtain ⟨-, rfl⟩ := h; simp [Stores]
  | decoding key log raw => obtain ⟨-, rfl⟩ := h; simp [Stores]
  | expiring key log raw => obtain ⟨-, rfl⟩ := h; simp [Stores]
  | ended key log r => exact h.elim
  | dropped => exact h.elim

section Steps

variable [ByteValue V] {s : Sledding V} {φ : ℕ → SledPhase V}

/-- What an answered request does to the invariant, given what its thread knows next. -/
theorem SledInv.answer (h : SledInv s φ) {i : ℕ} {c : SledCall V} {l : SledFn} {q : SledReq}
    {cancel : Option (List SledReq)} {k : q.Answer → SledStep (Option (SledResult V))}
    (ht : s.tasks i = some ⟨c, .req l q cancel k⟩) {fails : Bool} {a : q.Answer} {w : SledWorld}
    (hexec : s.world.exec q fails = some (a, w)) (hok : (φ i).Ok l q)
    (hundisturbed : ExpiryUndisturbed s ⟨i, c, l, q, a, s.world, w⟩)
    {rest : SledStep (Option (SledResult V))} {φ' : SledPhase V}
    (hsite : ∀ key raw, rest.site = some (.getExpire key raw) → Removable w key raw)
    (hknow : φ'.Knowing (s.answer i c l q a w rest) i)
    (hcall : φ'.call = (φ i).call ∨ φ' = .dropped) :
    SledInv (s.answer i c l q a w rest) (Function.update φ i φ') := by
  have hpending : ∀ key raw, l = .getExpire key raw → Removable s.world key raw :=
    fun key raw hl => h.removable i key raw (by rw [Sys.site_of_pending ht, hl])
  have hnow : s.world.now = w.now := (SledWorld.exec_now hexec).symm
  have hcalled : (φ i).call = some c := by
    rcases h.calls i c _ ht with hc | hdropped
    · exact hc
    · rw [hdropped] at hok
      exact hok.elim
  constructor
  · exact h.kept.answer hexec hok.sited hpending
  · intro j key raw hj
    by_cases hji : j = i
    · subst hji
      exact hsite key raw (by simpa [Sys.site] using hj)
    · have hj' : s.site j = some (.getExpire key raw) := by
        simpa [Sys.site, Function.update_of_ne hji] using hj
      exact (h.removable j key raw hj').answer hexec fun record hq =>
        hundisturbed.1 key record hq j raw hj'
  · intro it hit key raw hsite'
    rw [Sys.answer_trace, List.mem_cons] at hit
    rcases hit with rfl | hit
    · exact hpending key raw hsite'
    · exact h.removes it hit key raw hsite'
  · intro j
    by_cases hji : j = i
    · subst hji
      rw [Function.update_self]
      exact hknow
    · rw [Function.update_of_ne hji]
      exact (h.knowing j).mono (.cons (fun hij => absurd hij.symm hji) _) hnow.le
  · intro it hit
    rw [Sys.answer_trace, List.mem_cons] at hit
    rcases hit with rfl | hit
    · exact hok.stores hcalled
    · exact h.stores it hit
  · intro j c' rest' hj
    by_cases hji : j = i
    · subst hji
      rw [Sys.answer_tasks, Function.update_self, Option.some.injEq, Task.mk.injEq] at hj
      rw [Function.update_self, ← hj.1]
      exact hcall.imp_left fun hcall => hcall.trans hcalled
    · rw [Sys.answer_tasks, Function.update_of_ne hji] at hj
      rw [Function.update_of_ne hji]
      exact h.calls j c' rest' hj

/-- What a read tells, with the record last written still stored or expired. -/
theorem knows_of_read (h : SledInv s φ) {i : ℕ} {c : SledCall V} {key : KeyRef} {fails : Bool}
    {a : Except Unit (Option (List UInt8))} {w : SledWorld}
    (hexec : s.world.exec (.treeGet key) fails = some (a, w))
    (rest : SledStep (Option (SledResult V))) :
    (SledPhase.AfterRead key (⟨i, c, .getRead, .treeGet key, a, s.world, w⟩ :: s.trace) a).Knowing
      (s.answer i c .getRead (.treeGet key) a w rest) i := by
  have hread : ReadBy i key ⟨i, c, .getRead, .treeGet key, a, s.world, w⟩ s.trace
      (s.answer i c .getRead (.treeGet key) a w rest).trace :=
    ⟨.refl i _, rfl, rfl, rfl⟩
  have hnow := SledWorld.exec_now hexec
  cases fails with
  | true =>
    cases hexec
    exact ⟨_, _, rfl, hread, fun _ _ _ => .inr rfl⟩
  | false =>
    cases hexec
    have hstored : ∀ record, lastWrite key s.trace = some (some record) →
        ¬ Expires s.world.now record → s.world.tree key = some record := by
      intro record hlast halive
      rcases h.kept key record hlast with hstored | ⟨-, hexpired⟩
      · exact hstored
      · exact absurd hexpired halive
    cases htree : s.world.tree key with
    | none =>
      refine ⟨_, _, rfl, htree ▸ hread, fun record hlast halive => ?_⟩
      have := hstored record hlast halive
      simp [htree] at this
    | some raw =>
      refine ⟨_, _, rfl, htree ▸ hread, fun record hlast halive => ?_⟩
      have := hstored record hlast halive
      simpa [htree] using this

/-- The phase a `get` enters when the clock answers: it knows as much as before, and a record it is
about to remove it has found expired and in its place. -/
theorem knows_of_decode {i : ℕ} {key : KeyRef} {log : List (Sledded V)} {raw : List UInt8}
    {s' : Sledding V} (hnow : s'.world.now = s.world.now)
    (htrace : ReadsNoMore i s.trace s'.trace)
    (h : Knows s i key log fun record => raw = record) :
    (SledPhase.afterDecode key log raw s.world.now).Knowing s' i := by
  unfold SledPhase.afterDecode
  split_ifs with hexpires
  · exact Knows.mono htrace hnow.ge h fun _ _ h => h
  · refine Knows.mono htrace hnow.ge h ?_
    rintro record - rfl
    exact .inl (by rw [hnow])

theorem sled_keeps : Machine.Keeps (sled V) (sledDiscipline V) SledPhase.Final SledInv
    ((sled V).Answers ExpiryUndisturbed) where
  start s φ i c h _ _ := by
    refine ⟨c.phase, c.conforms, h.1.kept, ?_, h.1.removes, ?_, h.1.stores, ?_⟩
    · intro j key raw hj
      by_cases hji : j = i
      · subst hji
        have hconf := (Prog.wp_map _ _ _ _).mpr c.conforms
        have hsite : (some <$> c.prog : SledStep (Option (SledResult V))).site =
            some (.getExpire key raw) := by
          simpa [Sys.site, sled] using hj
        obtain ⟨q, hok⟩ := ok_of_site hconf hsite
        cases c <;> simp [SledCall.phase, SledPhase.Ok] at hok
      · exact h.1.removable j key raw (by simpa [Sys.site, Function.update_of_ne hji] using hj)
    · intro j
      by_cases hji : j = i
      · subst hji
        rw [Function.update_self]
        cases c <;> trivial
      · rw [Function.update_of_ne hji]
        exact h.1.knowing j
    · intro j c' rest hj
      by_cases hji : j = i
      · subst hji
        rw [Sys.leave_tasks, Function.update_self, Option.some.injEq, Task.mk.injEq] at hj
        rw [Function.update_self, hj.1]
        exact .inl (by cases c' <;> rfl)
      · rw [Sys.leave_tasks, Function.update_of_ne hji] at hj
        rw [Function.update_of_ne hji]
        exact h.1.calls j c' rest hj
  answer s φ i c l q cancel k o a w h ht hadm hstep hexec hok := by
    have hundisturbed : ExpiryUndisturbed s ⟨i, c, l, q, a, s.world, w⟩ :=
      hadm _ (Machine.answered_of_step hstep)
    have hconf := h.2 i _ ht
    -- once the phase is chosen, only what it knows and where it goes on is left to show
    have hgoes : ∀ φ', (sledDiscipline V).tr (φ i) l q a φ' →
        (∀ key raw, (k a).site = some (.getExpire key raw) → Removable w key raw) →
        φ'.Knowing (s.answer i c l q a w (k a)) i → φ'.call = (φ i).call →
        ∃ φ', (sledDiscipline V).tr (φ i) l q a φ' ∧
          SledInv (s.answer i c l q a w (k a)) (Function.update φ i φ') :=
      fun φ' htr hsite hknow hcall =>
        ⟨φ', htr, h.1.answer ht hexec hok hundisturbed hsite hknow (.inl hcall)⟩
    have hnext : ∀ φ', (sledDiscipline V).tr (φ i) l q a φ' → ∀ key raw,
        (k a).site = some (.getExpire key raw) → ∃ q', φ'.Ok (.getExpire key raw) q' :=
      fun φ' htr key raw hsite => ok_of_site (hconf.2.1 a φ' htr) hsite
    have hknew := h.1.knowing i
    have hnow := SledWorld.exec_now hexec
    obtain ⟨φi, hφ⟩ : ∃ φi, φ i = φi := ⟨_, rfl⟩
    rw [hφ] at hok hgoes hnext hknew ⊢
    cases φi with
    | other c' =>
      refine hgoes (.other c') rfl (fun key raw hsite => ?_) trivial rfl
      obtain ⟨q', hok'⟩ := hnext (.other c') rfl key raw hsite
      simp [SledPhase.Ok] at hok'
    | reading key =>
      obtain ⟨rfl, rfl⟩ := hok
      refine hgoes (.AfterRead key _ a) ⟨_, rfl⟩ (fun key' raw hsite => ?_)
        (knows_of_read h.1 hexec _) ?_
      · obtain ⟨q', hok'⟩ := hnext _ ⟨[], rfl⟩ key' raw hsite
        obtain ⟨⟩ | (_ | raw') := a <;> simp [SledPhase.AfterRead, SledPhase.Ok] at hok'
      · obtain ⟨⟩ | (_ | raw') := a <;> rfl
    | decoding key log raw =>
      obtain ⟨rfl, rfl⟩ := hok
      cases hexec
      refine hgoes (.afterDecode key log raw s.world.now) rfl (fun key' raw' hsite => ?_)
        (knows_of_decode rfl (.cons (fun _ h => by cases h) _) hknew) ?_
      · obtain ⟨q', hok'⟩ := hnext _ rfl key' raw' hsite
        unfold SledPhase.afterDecode at hok'
        split_ifs at hok' with hexpires
        · obtain ⟨hl, -⟩ := hok'
          cases hl
          exact ⟨hundisturbed.2 key raw rfl hexpires, hexpires⟩
        · exact hok'.elim
      · unfold SledPhase.afterDecode
        split_ifs <;> rfl
    | expiring key log raw =>
      obtain ⟨rfl, rfl⟩ := hok
      have hexpired : Expires s.world.now raw :=
        (h.1.removable i key raw (Sys.site_of_pending ht)).2
      refine hgoes (.ended key log (.ok none)) rfl (fun key' raw' hsite => ?_) ?_ rfl
      · obtain ⟨q', hok'⟩ := hnext _ rfl key' raw' hsite
        exact hok'.elim
      · -- a record that is alive is not the one that was found expired
        refine Knows.mono (.cons (fun _ h => by cases h) _) hnow.ge hknew ?_
        rintro record halive rfl
        exact absurd (hexpired.mono hnow.ge) halive
    | ended key log r => exact hok.elim
    | dropped => exact hok.elim
  answerUnseen s φ i c l q cs k o a w h ht hadm hstep hexec hok := by
    have hundisturbed : ExpiryUndisturbed s ⟨i, c, l, q, a, s.world, w⟩ :=
      hadm _ (Machine.answered_of_step hstep)
    obtain ⟨φ', htr⟩ := hok.after a
    refine ⟨φ', htr, h.1.answer ht hexec hok hundisturbed (fun key raw hsite => ?_) trivial
      (.inr rfl)⟩
    have hl := site_unwind hsite
    refine (h.1.removable i key raw (by rw [Sys.site_of_pending ht, hl])).answer hexec ?_
    rintro record rfl
    have hset := hok.sited.1 key record rfl
    rw [hl] at hset
    cases hset
  drop s φ i c l q cs k h _ ht := by
    refine ⟨h.kept, ?_, h.removes, ?_, h.stores, ?_⟩
    · intro j key raw hj
      by_cases hji : j = i
      · subst hji
        have hl := site_unwind (show (Prog.unwind l cs : SledStep (Option (SledResult V))).site =
          some (.getExpire key raw) by simpa [Sys.site] using hj)
        exact h.removable j key raw (by rw [Sys.site_of_pending ht, hl])
      · exact h.removable j key raw (by simpa [Sys.site, Function.update_of_ne hji] using hj)
    · intro j
      by_cases hji : j = i
      · subst hji
        rw [Function.update_self]
        trivial
      · rw [Function.update_of_ne hji]
        exact h.knowing j
    · intro j c' rest hj
      by_cases hji : j = i
      · subst hji
        rw [Function.update_self]
        exact .inr rfl
      · rw [Sys.leave_tasks, Function.update_of_ne hji] at hj
        rw [Function.update_of_ne hji]
        exact h.calls j c' rest hj
  env s φ d h _ := by
    refine ⟨h.kept.tick d, ?_, h.removes, ?_, h.stores, h.calls⟩
    · intro i key raw hi
      obtain ⟨hfound, hexpired⟩ := h.removable i key raw hi
      exact ⟨hfound, hexpired.mono (Nat.le_add_right _ _)⟩
    · intro i
      have hlater : s.world.now ≤ ((sled V).env d s.world).now := Nat.le_add_right _ _
      refine SledPhase.Knowing.mono ?_ ?_ (h.knowing i)
      · exact .refl i _
      · exact hlater

end Steps

/-- A record that was last written was written by a `set`. -/
theorem set_of_lastWrite {key : KeyRef} {record : List UInt8} {trace : List (Sledded V)}
    (h : lastWrite key trace = some (some record)) :
    ∃ set ∈ trace, set.req = .treeInsert key record := by
  obtain ⟨it, hit, hwritten⟩ := List.exists_of_findSome?_eq_some h
  refine ⟨it, hit, ?_⟩
  obtain ⟨i, c, l, q, a, pre, post⟩ := it
  cases q with
  | treeGet k => cases hwritten
  | nowMillis => cases hwritten
  | treeInsert k new =>
    cases a with
    | error e => cases hwritten
    | ok _ =>
      simp only [written] at hwritten
      split_ifs at hwritten with hk
      obtain rfl : new = record := by simpa using hwritten
      rw [hk]
  | treeRemove k =>
    cases a with
    | error e => cases l <;> cases hwritten
    | ok _ => cases l <;> simp [written] at hwritten

/-- The record of a value, while it is alive, is read as the value. -/
theorem verdict_of_encodeRecord [ByteValue V] {v : V} (hcodec : ∀ payload,
    ByteValue.encodeBytes v = .ok payload → ByteValue.decodeBytes payload = .ok v) {now written : ℕ}
    {ttl : Option ℕ} {record : List UInt8} (h : encodeRecord written v ttl = .ok record)
    (halive : ¬ Expires now record) : verdict now (some record) = .ok (some v) := by
  obtain ⟨payload, hencode, rfl⟩ := encodeRecord_eq_ok h
  have hdeadline : deadlineAt written ttl < 256 ^ 8 := deadlineAt_lt ttl
  have hdecode := decodeRecord_frame now hdeadline (hcodec payload hencode)
  rw [← decodeRecord_eq_none_iff (V := V)] at halive
  rw [verdict_frame now hdeadline (hcodec payload hencode), if_neg]
  intro hexpired
  rw [if_pos hexpired] at hdecode
  exact halive hdecode

/-- A write comes while none of the first `n` threads is about to remove, and a clock reading finds
the record that was read still in its place. -/
def quiet (n : ℕ) (s : Sledding V) (it : Sledded V) : Bool :=
  (match it.req with
    | .treeInsert key _ => (List.range n).all fun i =>
      match s.site i with
      | some (.getExpire k _) => k ≠ key
      | _ => true
    | _ => true) &&
  match it.site with
  | .getDecode key raw => s.world.tree key = some raw
  | _ => true

theorem undisturbed_of_quiet {n : ℕ} {s : Sledding V} (hn : ∀ i, n ≤ i → s.tasks i = none)
    {it : Sledded V} (h : quiet n s it = true) : ExpiryUndisturbed s it := by
  obtain ⟨hwrites, hreads⟩ := Bool.and_eq_true_iff.1 h
  constructor
  · intro key record hinsert i raw hsite
    have hi : i < n := by
      by_contra hi
      simp [Sys.site, hn i (not_lt.1 hi)] at hsite
    rw [hinsert] at hwrites
    simpa [hsite] using List.all_eq_true.1 hwrites i (List.mem_range.2 hi)
  · intro key raw hdecode _
    rw [hdecode] at hreads
    exact .inr (by simpa using hreads)

/-- A record has expired, and a `get` removes it while a `set` is under way that writes right after.
The next `get` of the same client finds what was written. -/
def rewrittenAfterExpiry : List (Event (SledCall (List UInt8)) Bool ℕ) :=
  [.start 0 (.set [] [7] (some (10 ^ 6))), .run 0 false, .run 0 false, .env 1,
    .start 1 (.get []), .start 0 (.set [] [8] none), .run 1 false, .run 0 false,
    .run 1 false, .run 1 false, .run 0 false,
    .start 1 (.get []), .run 1 false, .run 1 false]

/-- A record that expires at once, a `get` that has read it, and a record written before that `get`
goes on: the new record is removed, and the next `get` finds nothing. -/
def rewrittenWhileExpiring : List (Event (SledCall (List UInt8)) Bool ℕ) :=
  [.start 0 (.set [] [7] (some (10 ^ 6))), .run 0 false, .run 0 false, .env 1,
    .start 1 (.get []), .run 1 false,
    .start 2 (.set [] [8] none), .run 2 false, .run 2 false,
    .run 1 false, .run 1 false,
    .start 3 (.get []), .run 3 false]

end TheSix
