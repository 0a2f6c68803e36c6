import TheSix.Basic
import TheSix.Lib.BigStep
import TheSix.Lib.Bytes

/-!
# The sled tier

`L4SledBackend` of `tier/backends/l4_sled.rs`. A record is framed as

  `[ expiry_millis : u64 LE ] [ digest : u128 LE ] [ payload ... ]`

where the expiry is an absolute deadline in milliseconds, or `0` for never, and the digest covers
the payload only. The operations are programs over the tree: each tree operation and each reading
of the clock is one request, and may fail where sled may.

* A damaged record is noticed exactly when the damage is not in the expiry
  (`get_damaged_iff`).
* The deadline is the one asked for exactly when it fits into 64 bits of milliseconds
  (`record_law_iff`).
-/

namespace TheSix

open Coroutine Bytes

/-! ## Durations and digests -/

/-- `Duration::as_millis`, of a duration in nanoseconds. -/
def asMillis (d : ℕ) : ℕ := d / 10 ^ 6

/-- `ContentDigest::of_bytes`: two lanes of FNV-1a, side by side. -/
def contentDigest (bytes : List UInt8) : ℕ :=
  (fnv1a bytes fnvOffsetA).toNat * 2 ^ 64 + (fnv1a bytes fnvOffsetB).toNat

theorem contentDigest_lt (bytes : List UInt8) : contentDigest bytes < 256 ^ 16 := by
  have hA := (fnv1a bytes fnvOffsetA).toNat_lt
  have hB := (fnv1a bytes fnvOffsetB).toNat_lt
  unfold contentDigest
  omega

/-- Every lane notices every change of one byte. -/
theorem fnv1a_set_ne {bytes : List UInt8} {i : ℕ} (hi : i < bytes.length) {b : UInt8}
    (hb : b ≠ bytes[i]) (offset : UInt64) :
    (fnv1a (bytes.set i b) offset).toNat ≠ (fnv1a bytes offset).toNat := by
  intro h
  exact foldl_set_ne (fnvStep_left_injective fnvPrime_inverse)
    (fnvStep_right_injective fnvPrime_inverse) hi hb offset (UInt64.toNat_inj.mp h)

/-- The digest notices every change of one byte. -/
theorem contentDigest_set_ne {bytes : List UInt8} {i : ℕ} (hi : i < bytes.length) {b : UInt8}
    (hb : b ≠ bytes[i]) : contentDigest (bytes.set i b) ≠ contentDigest bytes := by
  have hlane := fnv1a_set_ne hi hb fnvOffsetA
  have hB := (fnv1a bytes fnvOffsetB).toNat_lt
  have hB' := (fnv1a (bytes.set i b) fnvOffsetB).toNat_lt
  unfold contentDigest
  omega

namespace L4SledBackend

def noExpiry : ℕ := 0

def expiryLen : ℕ := 8

def digestLen : ℕ := 16

def prefixLen : ℕ := 24

/-- `is_expired`, with the reading of the clock. -/
def isExpired (now deadline : ℕ) : Bool := deadline ≠ noExpiry && deadline ≤ now

theorem isExpired_iff {now deadline : ℕ} :
    isExpired now deadline = true ↔ deadline ≠ 0 ∧ deadline ≤ now := by
  rw [isExpired, Bool.and_eq_true, decide_eq_true_iff, decide_eq_true_iff]
  rfl

variable {V : Type} [ByteValue V]

/-- `decode_record`, with the reading of the clock. -/
def decodeRecord (now : ℕ) (raw : List UInt8) : Except CacheError (Option (ℕ × V)) :=
  if raw.length < prefixLen then .error .serializationFailed
  else
    let deadline := ofLe (raw.take expiryLen)
    let expected := ofLe ((raw.drop expiryLen).take digestLen)
    if isExpired now deadline then .ok none
    else
      let payload := raw.drop prefixLen
      if contentDigest payload ≠ expected then .error .corrupted
      else (ByteValue.decodeBytes payload).map fun v => some (deadline, v)

/-- The deadline that `set` computes: `now_millis().saturating_add(t.as_millis() as u64)`. -/
def deadlineAt (now : ℕ) : Option ℕ → ℕ
  | none => noExpiry
  | some t => min (now + asMillis t % 2 ^ 64) (2 ^ 64 - 1)

/-- The record that `set` writes around an encoded value. -/
def frame (deadline : ℕ) (payload : List UInt8) : List UInt8 :=
  toLe expiryLen deadline ++ toLe digestLen (contentDigest payload) ++ payload

/-- The record that `set` writes. -/
def encodeRecord (now : ℕ) (v : V) (ttl : Option ℕ) : Except CacheError (List UInt8) :=
  (ByteValue.encodeBytes v).map (frame (deadlineAt now ttl))

end L4SledBackend

/-! ## The operations -/

/-- The requests of the tier: operations of the `sled::Tree`, and the clock. -/
inductive SledReq
  | treeGet (key : KeyRef)
  | treeInsert (key : KeyRef) (record : List UInt8)
  | treeRemove (key : KeyRef)
  | nowMillis
  deriving DecidableEq

/-- The type of a request's answer. An operation of the tree may fail. -/
@[reducible] def SledReq.Answer : SledReq → Type
  | .treeGet _ => Except Unit (Option (List UInt8))
  | .treeInsert _ _ | .treeRemove _ => Except Unit Unit
  | .nowMillis => ℕ

/-- Where a request is made from. After its read, a `get` remembers the record it has read. -/
inductive SledFn
  | getRead
  | getDecode (key : KeyRef) (raw : List UInt8)
  | getExpire (key : KeyRef) (raw : List UInt8)
  | set
  | remove
  | contains
  deriving DecidableEq

/-- A program of the tier. None of its requests is an await point. -/
abbrev SledStep (R : Type) := Prog SledFn SledReq SledReq.Answer R

namespace L4SledBackend

variable {V : Type} [ByteValue V]

def ask (l : SledFn) (q : SledReq) : SledStep q.Answer := .req l q none .ret

/-- `finish_mutation`. -/
def finishMutation : Except Unit Unit → Except CacheError Unit
  | .ok () => .ok ()
  | .error () => .error .tierUnavailable

/-- `L4SledBackend::get`. -/
def get (key : KeyRef) : SledStep (Except CacheError (Option V)) := do
  match ← ask .getRead (.treeGet key) with
  | .ok (some raw) =>
    let now ← ask (.getDecode key raw) .nowMillis
    match (decodeRecord now raw : Except CacheError (Option (ℕ × V))) with
    | .ok none =>
      -- lazy expiry: the removal names the key, not the record that has expired
      let _ ← ask (.getExpire key raw) (.treeRemove key)
      return .ok none
    | .ok (some (_, v)) => return .ok (some v)
    | .error e => return .error e
  | .ok none => return .ok none
  | .error () => return .error .tierUnavailable

/-- `L4SledBackend::set`. -/
def set (key : KeyRef) (v : V) (ttl : Option ℕ) : SledStep (Except CacheError Unit) := do
  match ByteValue.encodeBytes v with
  | .error e => return .error e
  | .ok payload =>
    let now ← ask .set .nowMillis
    return finishMutation (← ask .set (.treeInsert key (frame (deadlineAt now ttl) payload)))

/-- `L4SledBackend::remove`. -/
def remove (key : KeyRef) : SledStep (Except CacheError Unit) := do
  return finishMutation (← ask .remove (.treeRemove key))

/-- `L4SledBackend::contains`. -/
def contains (V : Type) [ByteValue V] (key : KeyRef) : SledStep (Except CacheError Bool) := do
  match ← ask .contains (.treeGet key) with
  | .ok (some raw) =>
    let now ← ask .contains .nowMillis
    return (decodeRecord now raw : Except CacheError (Option (ℕ × V))).map Option.isSome
  | .ok none => return .ok false
  | .error () => return .error .tierUnavailable

end L4SledBackend

/-- The tree, and the clock in milliseconds. -/
structure SledWorld where
  tree : KeyRef → Option (List UInt8)
  now : ℕ

namespace SledWorld

/-- The atomic effect of a request, when sled fails and when it does not. -/
def exec : (q : SledReq) → Bool → SledWorld → Option (q.Answer × SledWorld)
  | .treeGet _, true, w => some (.error (), w)
  | .treeGet key, false, w => some (.ok (w.tree key), w)
  | .treeInsert _ _, true, w => some (.error (), w)
  | .treeInsert key record, false, w =>
    some (.ok (), { w with tree := Function.update w.tree key (some record) })
  | .treeRemove _, true, w => some (.error (), w)
  | .treeRemove key, false, w => some (.ok (), { w with tree := Function.update w.tree key none })
  | .nowMillis, _, w => some (w.now, w)

/-- The answers of a sled that does not fail. -/
def alone (q : SledReq) (w : SledWorld) : Option (q.Answer × SledWorld) := exec q false w

end SledWorld

/-! ## Reading a record -/

namespace L4SledBackend

variable {V : Type} [ByteValue V]

/-- What a reader makes of what is stored under a key. -/
def verdict (now : ℕ) : Option (List UInt8) → Except CacheError (Option V)
  | none => .ok none
  | some raw => (decodeRecord now raw).map (·.map Prod.snd)

theorem get_eval (key : KeyRef) (w : SledWorld) :
    ∃ w', (get key : SledStep (Except CacheError (Option V))).eval SledWorld.alone w =
      some (verdict w.now (w.tree key), w') := by
  simp only [get, ask, Prog.req_bind, Prog.ret_bind]
  rw [Prog.eval_req (show SledWorld.alone (.treeGet key) w = some (.ok (w.tree key), w) from rfl)]
  cases w.tree key with
  | none => exact ⟨w, rfl⟩
  | some raw =>
    dsimp only
    rw [Prog.eval_req (show SledWorld.alone .nowMillis w = some (w.now, w) from rfl)]
    simp only [verdict]
    cases (decodeRecord w.now raw : Except CacheError (Option (ℕ × V))) with
    | error e => exact ⟨w, rfl⟩
    | ok found =>
      cases found with
      | none => exact ⟨_, rfl⟩
      | some dv => exact ⟨w, rfl⟩

theorem contains_eval (key : KeyRef) (w : SledWorld) :
    (contains V key).eval SledWorld.alone w =
      some ((verdict w.now (w.tree key) : Except CacheError (Option V)).map Option.isSome, w) := by
  simp only [contains, ask, Prog.req_bind, Prog.ret_bind]
  rw [Prog.eval_req (show SledWorld.alone (.treeGet key) w = some (.ok (w.tree key), w) from rfl)]
  cases w.tree key with
  | none => rfl
  | some raw =>
    dsimp only
    rw [Prog.eval_req (show SledWorld.alone .nowMillis w = some (w.now, w) from rfl)]
    simp only [verdict]
    cases (decodeRecord w.now raw : Except CacheError (Option (ℕ × V))) with
    | error e => rfl
    | ok found => cases found <;> rfl

theorem set_eval (key : KeyRef) {v : V} {payload : List UInt8}
    (h : ByteValue.encodeBytes v = .ok payload) (ttl : Option ℕ) (w : SledWorld) :
    (set key v ttl).eval SledWorld.alone w = some (.ok (), { w with
      tree := Function.update w.tree key (some (frame (deadlineAt w.now ttl) payload)) }) := by
  simp only [set, h]
  rfl

/-- A record in its three parts. -/
theorem decodeRecord_parts (now : ℕ) {expiry digest : List UInt8}
    (hexpiry : expiry.length = expiryLen) (hdigest : digest.length = digestLen) (payload : List UInt8) :
    (decodeRecord now (expiry ++ digest ++ payload) : Except CacheError (Option (ℕ × V))) =
      if isExpired now (ofLe expiry) then .ok none
      else if contentDigest payload ≠ ofLe digest then .error .corrupted
      else (ByteValue.decodeBytes payload).map fun v => some (ofLe expiry, v) := by
  have hlength : ¬ (expiry ++ digest ++ payload).length < prefixLen := by
    simp only [List.length_append, hexpiry, hdigest, prefixLen, expiryLen, digestLen]
    omega
  have htake : (expiry ++ digest ++ payload).take expiryLen = expiry := by
    rw [List.append_assoc]
    exact List.take_left' hexpiry
  have hdrop : (expiry ++ digest ++ payload).drop expiryLen = digest ++ payload := by
    rw [List.append_assoc]
    exact List.drop_left' hexpiry
  have hpayload : (expiry ++ digest ++ payload).drop prefixLen = payload :=
    List.drop_left' (by simp [hexpiry, hdigest, prefixLen, expiryLen, digestLen])
  rw [decodeRecord, if_neg hlength, htake, hdrop, List.take_left' hdigest, hpayload]

theorem deadlineAt_lt {now : ℕ} (ttl : Option ℕ) : deadlineAt now ttl < 256 ^ 8 := by
  cases ttl with
  | none => simp [deadlineAt, noExpiry]
  | some t =>
    simp only [deadlineAt]
    omega

theorem ofLe_expiry {deadline : ℕ} (h : deadline < 256 ^ 8) :
    ofLe (toLe expiryLen deadline) = deadline := ofLe_toLe h

theorem ofLe_digest (payload : List UInt8) :
    ofLe (toLe digestLen (contentDigest payload)) = contentDigest payload :=
  ofLe_toLe (contentDigest_lt payload)

/-- A record as it was written is expired, or holds its value. -/
theorem decodeRecord_frame (now : ℕ) {deadline : ℕ} (hdeadline : deadline < 256 ^ 8)
    {v : V} {payload : List UInt8} (hdecode : ByteValue.decodeBytes payload = .ok v) :
    (decodeRecord now (frame deadline payload) : Except CacheError (Option (ℕ × V))) =
      .ok (if isExpired now deadline then none else some (deadline, v)) := by
  rw [frame, decodeRecord_parts now (length_toLe ..) (length_toLe ..), ofLe_expiry hdeadline,
    ofLe_digest, hdecode]
  split_ifs with hexpired hdigest
  · rfl
  · exact absurd rfl hdigest
  · rfl

/-! ## Damage -/

/-- A change of one byte is a change in one of the three parts. -/
theorem set_parts {expiry digest : List UInt8} (hexpiry : expiry.length = expiryLen)
    (hdigest : digest.length = digestLen) (payload : List UInt8) (i : ℕ) (b : UInt8) :
    (expiry ++ digest ++ payload).set i b =
      if i < 8 then expiry.set i b ++ digest ++ payload
      else if i < 24 then expiry ++ digest.set (i - 8) b ++ payload
      else expiry ++ digest ++ payload.set (i - 24) b := by
  simp only [expiryLen, digestLen] at hexpiry hdigest
  split_ifs with h₁ h₂
  · rw [List.append_assoc, List.set_append_left _ _ (by omega), List.append_assoc]
  · rw [List.append_assoc, List.set_append_right _ _ (by omega), hexpiry,
      List.set_append_left _ _ (by omega), List.append_assoc]
  · rw [List.set_append_right _ _ (by simp; omega)]
    simp [hexpiry, hdigest]

/-- Another digest never fits the payload. -/
theorem decodeRecord_of_digest_ne (now : ℕ) {expiry digest : List UInt8}
    (hexpiry : expiry.length = expiryLen) (hdigest : digest.length = digestLen)
    {payload : List UInt8} (halive : isExpired now (ofLe expiry) = false)
    (hne : contentDigest payload ≠ ofLe digest) :
    (decodeRecord now (expiry ++ digest ++ payload) : Except CacheError (Option (ℕ × V))) =
      .error .corrupted := by
  rw [decodeRecord_parts now hexpiry hdigest, halive, if_neg Bool.false_ne_true, if_pos hne]

/-- Damage behind the expiry is noticed as long as the record is not expired. -/
theorem decodeRecord_damaged (now : ℕ) {deadline : ℕ} (hdeadline : deadline < 256 ^ 8)
    (payload : List UInt8) (halive : isExpired now deadline = false) {i : ℕ} (hi : 8 ≤ i)
    (hlt : i < (frame deadline payload).length) {b : UInt8} (hb : b ≠ (frame deadline payload)[i]) :
    (decodeRecord now ((frame deadline payload).set i b) : Except CacheError (Option (ℕ × V))) =
      .error .corrupted := by
  have hexpiry : (toLe expiryLen deadline).length = expiryLen := length_toLe ..
  have hdigest : (toLe digestLen (contentDigest payload)).length = digestLen := length_toLe ..
  have halive' : isExpired now (ofLe (toLe expiryLen deadline)) = false := by
    rwa [ofLe_expiry hdeadline]
  have hchanged : (frame deadline payload).set i b ≠ frame deadline payload := by
    intro h
    have hget := congrArg (·[i]?) h
    simp only [List.getElem?_set_self hlt, List.getElem?_eq_getElem hlt, Option.some.injEq] at hget
    exact hb hget
  have hparts := set_parts hexpiry hdigest payload i b
  rw [if_neg (by omega)] at hparts
  have hlength : (frame deadline payload).length = 24 + payload.length := by
    simp only [frame, List.length_append, length_toLe, expiryLen, digestLen]
  simp only [frame] at hchanged ⊢
  rw [hparts] at hchanged ⊢
  split_ifs at hchanged ⊢ with hfront
  · -- the digest is no longer the one of the payload
    refine decodeRecord_of_digest_ne now hexpiry (by simp) halive' fun h => ?_
    have hsame : (toLe digestLen (contentDigest payload)).set (i - 8) b =
        toLe digestLen (contentDigest payload) := by
      refine ofLe_injective (by simp) ?_
      rw [← h, ofLe_digest]
    exact hchanged (by rw [hsame])
  · -- the payload is no longer the one of the digest
    refine decodeRecord_of_digest_ne now hexpiry hdigest halive' fun h => ?_
    rw [ofLe_digest] at h
    have hlt' : i - 24 < payload.length := by omega
    refine contentDigest_set_ne hlt' (fun hb' => hchanged ?_) h
    rw [hb', List.set_getElem_self]

/-- Damage to the expiry is never noticed: the record now expires at another time. -/
theorem decodeRecord_expiry_damaged (now deadline : ℕ) {v : V} {payload : List UInt8}
    (hdecode : ByteValue.decodeBytes payload = .ok v) {i : ℕ} (hi : i < 8) (b : UInt8) :
    (decodeRecord now ((frame deadline payload).set i b) : Except CacheError (Option (ℕ × V))) =
      .ok (if isExpired now (ofLe ((toLe expiryLen deadline).set i b)) then none
        else some (ofLe ((toLe expiryLen deadline).set i b), v)) := by
  rw [frame, set_parts (length_toLe ..) (length_toLe ..), if_pos hi,
    decodeRecord_parts now (by simp) (length_toLe ..), ofLe_digest, hdecode]
  split_ifs with hexpired hdigest
  · rfl
  · exact absurd rfl hdigest
  · rfl

theorem encodeRecord_eq_ok {now : ℕ} {v : V} {ttl : Option ℕ} {record : List UInt8}
    (h : encodeRecord now v ttl = .ok record) :
    ∃ payload, ByteValue.encodeBytes v = .ok payload ∧
      record = frame (deadlineAt now ttl) payload := by
  unfold encodeRecord at h
  cases hencode : ByteValue.encodeBytes v with
  | error e => simp [hencode, Except.map] at h
  | ok payload =>
    rw [hencode] at h
    exact ⟨payload, rfl, (Except.ok.inj h).symm⟩

/-- **Damage to a record is noticed exactly when it is not in the expiry.** The record was written
at `w`, one byte of it has changed, and it is read before its deadline. -/
theorem get_damaged_iff {v : V} {ttl : Option ℕ} {w : ℕ} {record : List UInt8}
    (hrecord : encodeRecord w v ttl = .ok record)
    (hdecode : ∀ payload, ByteValue.encodeBytes v = .ok payload →
      ByteValue.decodeBytes payload = .ok v)
    {i : ℕ} (hi : i < record.length) {b : UInt8} (hb : b ≠ record[i]) (key : KeyRef)
    (world : SledWorld) (htree : world.tree key = some (record.set i b))
    (hbefore : deadlineAt w ttl = noExpiry ∨ world.now < deadlineAt w ttl) :
    (∃ e world', (get key : SledStep (Except CacheError (Option V))).eval SledWorld.alone world =
      some (.error e, world')) ↔ expiryLen ≤ i := by
  obtain ⟨payload, hencode, rfl⟩ := encodeRecord_eq_ok hrecord
  obtain ⟨world', heval⟩ := get_eval (V := V) key world
  have halive : isExpired world.now (deadlineAt w ttl) = false := by
    rw [← Bool.not_eq_true, isExpired_iff]
    simp only [noExpiry] at hbefore
    omega
  rw [heval, htree, verdict]
  by_cases hpart : expiryLen ≤ i
  · have hdamaged := decodeRecord_damaged (V := V) world.now (deadlineAt_lt ttl) payload halive
      hpart hi hb
    rw [hdamaged]
    exact iff_of_true ⟨.corrupted, world', rfl⟩ hpart
  · rw [decodeRecord_expiry_damaged world.now _ (hdecode payload hencode) (not_le.mp hpart) b]
    refine iff_of_false ?_ hpart
    rintro ⟨e, world'', h⟩
    cases h

/-- A record of two bytes that was written at `1`, to live for two milliseconds. -/
def shortLived : List UInt8 := frame 3 [7, 9]

theorem encodeRecord_shortLived :
    encodeRecord 1 ([7, 9] : List UInt8) (some (2 * 10 ^ 6)) = .ok shortLived := by
  decide +kernel

/-- Damage to its payload is noticed. -/
theorem get_damaged_payload :
    ∃ e world', (get [] : SledStep (Except CacheError (Option (List UInt8)))).eval
      SledWorld.alone ⟨fun _ => some (shortLived.set 24 8), 1⟩ = some (.error e, world') :=
  (get_damaged_iff encodeRecord_shortLived (by rintro _ ⟨⟩; rfl) (by decide) (by decide +kernel) []
    _ rfl (.inr (by decide))).mpr (by decide)

/-- Damage to its expiry is not: the record is read as expired while it is alive, and removed. -/
theorem get_damaged_expiry :
    ∃ world world' : SledWorld, world.now < deadlineAt 1 (some (2 * 10 ^ 6)) ∧
      shortLived[0]? ≠ some 1 ∧ world.tree [] = some (shortLived.set 0 1) ∧
      (get [] : SledStep (Except CacheError (Option (List UInt8)))).eval SledWorld.alone world =
        some (.ok none, world') ∧ world'.tree [] = none :=
  ⟨⟨fun _ => some (shortLived.set 0 1), 1⟩, _, by decide, by decide +kernel, rfl, rfl, rfl⟩

/-! ## Deadlines -/

/-- Whether a value written at `w` is alive at `r`, in exact arithmetic. -/
def Alive (w : ℕ) (ttl : Option ℕ) (r : ℕ) : Prop := ∀ t ∈ ttl, r < w + asMillis t

instance (w : ℕ) (ttl : Option ℕ) (r : ℕ) : Decidable (Alive w ttl r) :=
  inferInstanceAs (Decidable (∀ t ∈ ttl, _))

theorem verdict_frame (r : ℕ) {deadline : ℕ} (hdeadline : deadline < 256 ^ 8) {v : V}
    {payload : List UInt8} (hdecode : ByteValue.decodeBytes payload = .ok v) :
    (verdict r (some (frame deadline payload)) : Except CacheError (Option V)) =
      .ok (if isExpired r deadline then none else some v) := by
  rw [verdict, decodeRecord_frame r hdeadline hdecode]
  split_ifs <;> rfl

/-- **The deadline is honoured exactly when it fits.** The record that `set` writes at `w` is read
as its value before its deadline and as expired from then on, and `get` and `contains` agree on
every record, exactly when the deadline is below `2 ^ 64` milliseconds. -/
theorem record_law_iff {v : V} {ttl : Option ℕ} {w : ℕ} {record : List UInt8} (hw : 1 ≤ w)
    (hrecord : encodeRecord w v ttl = .ok record)
    (hdecode : ∀ payload, ByteValue.encodeBytes v = .ok payload →
      ByteValue.decodeBytes payload = .ok v) :
    ((∀ r < 2 ^ 64, verdict r (some record) = .ok (if Alive w ttl r then some v else none)) ∧
      ∀ key world, ∃ answer world',
        (get key : SledStep (Except CacheError (Option V))).eval SledWorld.alone world =
          some (answer, world') ∧
        (contains V key).eval SledWorld.alone world =
          some (answer.map Option.isSome, world)) ↔
    ∀ t ∈ ttl, w + asMillis t < 2 ^ 64 := by
  obtain ⟨payload, hencode, rfl⟩ := encodeRecord_eq_ok hrecord
  have hagree : ∀ key world, ∃ answer world',
      (get key : SledStep (Except CacheError (Option V))).eval SledWorld.alone world =
        some (answer, world') ∧
      (contains V key).eval SledWorld.alone world = some (answer.map Option.isSome, world) := by
    intro key world
    obtain ⟨world', heval⟩ := get_eval (V := V) key world
    exact ⟨_, world', heval, contains_eval key world⟩
  have hdeadline : deadlineAt w ttl < 256 ^ 8 := deadlineAt_lt ttl
  have hverdict := fun r => verdict_frame r hdeadline (hdecode payload hencode)
  simp only [hverdict, hagree, implies_true, and_true, Except.ok.injEq]
  cases ttl with
  | none => simp [deadlineAt, isExpired, Alive]
  | some t =>
    simp only [Option.mem_def, Option.some.injEq, forall_eq', Alive]
    constructor
    · intro hall
      -- the last reading of a 64-bit clock tells
      have hlast := hall (2 ^ 64 - 1) (by omega)
      by_contra hover
      have hexpired : isExpired (2 ^ 64 - 1) (deadlineAt w (some t)) = true := by
        rw [isExpired_iff]
        simp only [deadlineAt]
        omega
      rw [hexpired, if_pos rfl, if_pos (by omega)] at hlast
      cases hlast
    · intro hfits r hr
      have hdeadline : deadlineAt w (some t) = w + asMillis t := by
        simp only [deadlineAt]
        omega
      have hexpired : isExpired r (w + asMillis t) = true ↔ ¬ r < w + asMillis t := by
        rw [isExpired_iff]
        omega
      rw [hdeadline]
      by_cases halive : r < w + asMillis t
      · rw [if_neg fun h => hexpired.mp h halive, if_pos halive]
      · rw [if_pos (hexpired.mpr halive), if_neg halive]

/-- A time to live of 584 million years. -/
def longLived : ℕ := 18446744073709552 * 10 ^ 9

/-- Its record expires after 384 milliseconds. -/
theorem record_law_longLived : longLived ≤ durationMax ∧
    encodeRecord 1 ([7, 9] : List UInt8) (some longLived) = .ok (frame 385 [7, 9]) ∧
    Alive 1 (some longLived) 385 ∧
    verdict 385 (some (frame 385 [7, 9])) =
      (.ok none : Except CacheError (Option (List UInt8))) :=
  ⟨by decide, by decide +kernel, by decide, by decide +kernel⟩

/-- A lifetime that fits. -/
theorem record_law_shortLived : verdict 2 (some shortLived) =
    .ok (if Alive 1 (some (2 * 10 ^ 6)) 2 then some ([7, 9] : List UInt8) else none) :=
  ((record_law_iff (by decide) encodeRecord_shortLived (by rintro _ ⟨⟩; rfl)).mpr
    (by rintro t ⟨⟩; decide)).1 2 (by decide)

end L4SledBackend

end TheSix
