import TheSix.Basic
import TheSix.Lib.Run

/-!
# The RDF tier

`L5OxigraphBackend` keeps an entry as one quad: the key, in hexadecimal, is part of the subject, and
the encoded value, in hexadecimal, is a literal. The store is a set of quads, and a query enumerates
its matches in any order, which may differ from query to query.

`set` removes the quad that it is about to insert, not the one it replaces. So a key that is set
again keeps its older quads, and `get` returns whichever the store yields first. The tier is a map
exactly along the histories in which a key that holds a value is only set to that value again
(`refines_map_iff`).

Text is given by its bytes.
-/

namespace TheSix

namespace L5OxigraphBackend

/-! ## Hexadecimal -/

/-- A digit of `{:02x}`. -/
def hexDigit (n : ℕ) : UInt8 := UInt8.ofNat (if n < 10 then 48 + n else 87 + n)

/-- `char::to_digit(16)`, of a byte taken for a character. -/
def toDigit (c : UInt8) : Option ℕ :=
  if 48 ≤ c.toNat ∧ c.toNat ≤ 57 then some (c.toNat - 48)
  else if 97 ≤ c.toNat ∧ c.toNat ≤ 102 then some (c.toNat - 87)
  else if 65 ≤ c.toNat ∧ c.toNat ≤ 70 then some (c.toNat - 55)
  else none

/-- `hex_encode`. -/
def hexEncode (bytes : List UInt8) : List UInt8 :=
  bytes.flatMap fun b => [hexDigit (b.toNat / 16), hexDigit (b.toNat % 16)]

/-- The loop of `hex_decode`, over pairs of bytes. -/
def hexPairs : List UInt8 → Except CacheError (List UInt8)
  | hi :: lo :: rest =>
    match toDigit hi, toDigit lo with
    | some h, some l => (hexPairs rest).map (UInt8.ofNat (16 * h + l) :: ·)
    | _, _ => .error .serializationFailed
  | _ => .ok []

/-- `hex_decode`. -/
def hexDecode (text : List UInt8) : Except CacheError (List UInt8) :=
  if text.length % 2 ≠ 0 then .error .serializationFailed else hexPairs text

theorem toDigit_hexDigit {n : ℕ} (h : n < 16) : toDigit (hexDigit n) = some n := by
  interval_cases n <;> decide

theorem hexPairs_hexEncode (bytes : List UInt8) : hexPairs (hexEncode bytes) = .ok bytes := by
  induction bytes with
  | nil => rfl
  | cons b bytes ih =>
    have hb := b.toNat_lt
    have hhigh := toDigit_hexDigit (show b.toNat / 16 < 16 by omega)
    have hlow := toDigit_hexDigit (show b.toNat % 16 < 16 by omega)
    have hwhole : 16 * (b.toNat / 16) + b.toNat % 16 = b.toNat := by omega
    rw [hexEncode, List.flatMap_cons, List.cons_append, List.cons_append, List.nil_append, hexPairs,
      hhigh, hlow]
    rw [← hexEncode, ih]
    simp [hwhole, Except.map]

theorem length_hexEncode (bytes : List UInt8) : (hexEncode bytes).length = 2 * bytes.length := by
  induction bytes with
  | nil => rfl
  | cons b bytes ih =>
    rw [hexEncode, List.flatMap_cons, List.length_append, ← hexEncode, ih]
    simp only [List.length_cons, List.length_nil]
    omega

theorem hexDecode_hexEncode (bytes : List UInt8) : hexDecode (hexEncode bytes) = .ok bytes := by
  rw [hexDecode, if_neg, hexPairs_hexEncode]
  rw [length_hexEncode]
  omega

theorem hexEncode_injective : Function.Injective hexEncode := by
  intro a b h
  have hdecode := hexDecode_hexEncode a
  rw [h, hexDecode_hexEncode] at hdecode
  exact (Except.ok.inj hdecode).symm

end L5OxigraphBackend

/-! ## The store -/

/-- `NamedOrBlankNode`. -/
inductive NamedOrBlankNode
  | namedNode (iri : List UInt8)
  | blankNode (id : List UInt8)
  deriving DecidableEq

/-- `Term`. -/
inductive Term
  | namedNode (iri : List UInt8)
  | blankNode (id : List UInt8)
  | literal (value : List UInt8)
  deriving DecidableEq

/-- `Quad`, in the default graph. -/
structure Quad where
  subject : NamedOrBlankNode
  predicate : List UInt8
  object : Term
  deriving DecidableEq

/-- `Store`: a set of quads. -/
structure Store where
  quads : List Quad
  nodup : quads.Nodup

/-- An order in which the store enumerates quads. -/
structure Enumeration where
  order : List Quad → List Quad
  perm : ∀ l, (order l).Perm l

namespace Store

/-- `Store::new`. -/
def new : Store := ⟨[], List.nodup_nil⟩

/-- `Store::insert`. -/
def insert (s : Store) (q : Quad) : Store := ⟨s.quads.insert q, s.nodup.insert⟩

/-- `Store::remove`. -/
def remove (s : Store) (q : Quad) : Store := ⟨s.quads.erase q, s.nodup.erase q⟩

/-- `Store::quads_for_pattern`, with the subject given. -/
def quadsForPattern (s : Store) (o : Enumeration) (subject : NamedOrBlankNode) : List Quad :=
  o.order (s.quads.filter (·.subject = subject))

end Store

/-! ## The operations -/

namespace L5OxigraphBackend

variable {V : Type} [ByteValue V]

/-- `ENTRY_NS`, which is `urn:thesix:entry:`. -/
def entryNs : List UInt8 :=
  [117, 114, 110, 58, 116, 104, 101, 115, 105, 120, 58, 101, 110, 116, 114, 121, 58]

/-- `VALUE_PRED`, which is `urn:thesix:value`. -/
def valuePred : List UInt8 :=
  [117, 114, 110, 58, 116, 104, 101, 115, 105, 120, 58, 118, 97, 108, 117, 101]

/-- `L5OxigraphBackend::subject_for`. Hexadecimal behind the namespace is always an IRI. -/
def subjectFor (key : KeyRef) : NamedOrBlankNode := .namedNode (entryNs ++ hexEncode key)

/-- The quad of a key and an encoded value. -/
def quadFor (key : KeyRef) (bytes : List UInt8) : Quad where
  subject := subjectFor key
  predicate := valuePred
  object := .literal (hexEncode bytes)

/-- What `find_value` makes of an object. -/
def objectBytes : Term → List UInt8
  | .literal value => value
  | _ => []

/-- `L5OxigraphBackend::find_value`: the first quad of the subject. -/
def findValue (s : Store) (o : Enumeration) (key : KeyRef) : Option (List UInt8) :=
  (s.quadsForPattern o (subjectFor key)).findSome? fun q =>
    if q.subject = subjectFor key then some (objectBytes q.object) else none

/-- `L5OxigraphBackend::get`. What is found is the text of a literal, so it is UTF-8. -/
def get (s : Store) (o : Enumeration) (key : KeyRef) : Except CacheError (Option V) :=
  match findValue s o key with
  | some encoded =>
    match hexDecode encoded with
    | .ok bytes => (ByteValue.decodeBytes bytes).map some
    | .error e => .error e
  | none => .ok none

/-- `L5OxigraphBackend::set`. The time to live is not used. -/
def set (s : Store) (key : KeyRef) (v : V) : Except CacheError Unit × Store :=
  match ByteValue.encodeBytes v with
  | .error e => (.error e, s)
  | .ok bytes => (.ok (), (s.remove (quadFor key bytes)).insert (quadFor key bytes))

/-- `L5OxigraphBackend::remove`. -/
def remove (s : Store) (o : Enumeration) (key : KeyRef) : Except CacheError Unit × Store :=
  (.ok (), (s.quadsForPattern o (subjectFor key)).foldl Store.remove s)

/-- `L5OxigraphBackend::contains`. -/
def contains (s : Store) (o : Enumeration) (key : KeyRef) : Except CacheError Bool :=
  .ok (findValue s o key).isSome

/-! ## Histories -/

/-- An operation of the tier. -/
inductive Op (V : Type)
  | set (key : KeyRef) (v : V)
  | get (key : KeyRef)
  | remove (key : KeyRef)
  | contains (key : KeyRef)

/-- The store after an operation. -/
def Op.exec (s : Store) (o : Enumeration) : Op V → Store
  | .set key v => (L5OxigraphBackend.set s key v).2
  | .remove key => (L5OxigraphBackend.remove s o key).2
  | .get _ | .contains _ => s

/-- The map that the tier is for: what was last set and not removed since. A value that cannot be
encoded is not set. -/
def Op.spec (m : KeyRef → Option V) : Op V → KeyRef → Option V
  | .set key v => match (ByteValue.encodeBytes v : Except CacheError (List UInt8)) with
    | .ok _ => Function.update m key (some v)
    | .error _ => m
  | .remove key => Function.update m key none
  | .get _ | .contains _ => m

/-- The store and the map, after an operation. -/
def step (x : Store × (KeyRef → Option V)) (op : Enumeration × Op V) :
    Store × (KeyRef → Option V) :=
  (op.2.exec x.1 op.1, op.2.spec x.2)

/-- The quads of a key. -/
def quadsOf (s : Store) (key : KeyRef) : List Quad := s.quads.filter (·.subject = subjectFor key)

/-- The tier is the map, in whatever order the store answers. -/
structure IsMap (x : Store × (KeyRef → Option V)) : Prop where
  get : ∀ o key, L5OxigraphBackend.get x.1 o key = .ok (x.2 key)
  contains : ∀ o key, L5OxigraphBackend.contains x.1 o key = .ok (x.2 key).isSome
  atMostOne : ∀ key, (quadsOf x.1 key).length ≤ 1

/-- A key that holds a value is set to that value again, or not at all. -/
def Repeats (x : Store × (KeyRef → Option V)) : Enumeration × Op V → Prop
  | (_, .set key v) => ∀ old bytes, x.2 key = some old → ByteValue.encodeBytes v = .ok bytes →
      (ByteValue.encodeBytes old : Except CacheError (List UInt8)) = .ok bytes
  | _ => True

/-! ## The quads of a key -/

theorem subjectFor_injective : Function.Injective subjectFor := by
  intro a b h
  simp only [subjectFor, NamedOrBlankNode.namedNode.injEq, List.append_cancel_left_eq] at h
  exact hexEncode_injective h

theorem quadFor_injective {key : KeyRef} {bytes bytes' : List UInt8}
    (h : quadFor key bytes = quadFor key bytes') : bytes = bytes' := by
  simp only [quadFor, Quad.mk.injEq, Term.literal.injEq, true_and] at h
  exact hexEncode_injective h

theorem mem_quadsOf {s : Store} {key : KeyRef} {q : Quad} :
    q ∈ quadsOf s key ↔ q ∈ s.quads ∧ q.subject = subjectFor key := by
  simp [quadsOf]

theorem nodup_quadsOf (s : Store) (key : KeyRef) : (quadsOf s key).Nodup := s.nodup.filter _

/-- The store holds the value of every key of the map, and no quad of another key. -/
def Holds (x : Store × (KeyRef → Option V)) : Prop :=
  ∀ key, (x.2 key = none → quadsOf x.1 key = []) ∧ ∀ v, x.2 key = some v →
    ∃ bytes, ByteValue.encodeBytes v = .ok bytes ∧ quadFor key bytes ∈ quadsOf x.1 key

/-- `set` adds a quad to its key, and removes none. -/
theorem mem_quadsOf_set {s : Store} {key key' : KeyRef} {v : V} {bytes : List UInt8}
    (hencode : ByteValue.encodeBytes v = .ok bytes) {q : Quad} :
    q ∈ quadsOf (L5OxigraphBackend.set s key v).2 key' ↔
      key' = key ∧ q = quadFor key bytes ∨ q ∈ quadsOf s key' := by
  have hsubject : (quadFor key bytes).subject = subjectFor key' ↔ key' = key := by
    rw [quadFor, subjectFor_injective.eq_iff, eq_comm]
  simp only [mem_quadsOf, L5OxigraphBackend.set, hencode, Store.insert, Store.remove,
    List.mem_insert_iff, s.nodup.mem_erase_iff]
  constructor
  · rintro ⟨rfl | ⟨-, hq⟩, hkey⟩
    · exact .inl ⟨hsubject.1 hkey, rfl⟩
    · exact .inr ⟨hq, hkey⟩
  · rintro (⟨hkey, rfl⟩ | ⟨hq, hkey⟩)
    · exact ⟨.inl rfl, hsubject.2 hkey⟩
    · by_cases hnew : q = quadFor key bytes
      · exact ⟨.inl hnew, hkey⟩
      · exact ⟨.inr ⟨hnew, hq⟩, hkey⟩

theorem mem_foldl_remove {found : List Quad} {s : Store} {q : Quad} :
    q ∈ (found.foldl Store.remove s).quads ↔ q ∈ s.quads ∧ q ∉ found := by
  induction found generalizing s with
  | nil => simp
  | cons q' found ih =>
    rw [List.foldl_cons, ih, Store.remove, s.nodup.mem_erase_iff, List.mem_cons]
    tauto

/-- `remove` clears its key. -/
theorem mem_quadsOf_remove {s : Store} {o : Enumeration} {key key' : KeyRef} {q : Quad} :
    q ∈ quadsOf (L5OxigraphBackend.remove s o key).2 key' ↔ key' ≠ key ∧ q ∈ quadsOf s key' := by
  rw [mem_quadsOf, mem_quadsOf, L5OxigraphBackend.remove, mem_foldl_remove, Store.quadsForPattern,
    (o.perm _).mem_iff, List.mem_filter, decide_eq_true_eq]
  constructor
  · rintro ⟨⟨hq, hnot⟩, hkey⟩
    refine ⟨?_, hq, hkey⟩
    rintro rfl
    exact hnot ⟨hq, hkey⟩
  · rintro ⟨hne, hq, hkey⟩
    refine ⟨⟨hq, fun hmem => hne ?_⟩, hkey⟩
    exact subjectFor_injective (hkey.symm.trans hmem.2)

theorem length_quadsOf_le_one_iff {s : Store} {key : KeyRef} :
    (quadsOf s key).length ≤ 1 ↔ ∀ q ∈ quadsOf s key, ∀ q' ∈ quadsOf s key, q = q' := by
  have hnodup := nodup_quadsOf s key
  constructor
  · intro h q hq q' hq'
    obtain ⟨q₀, hq₀⟩ := List.length_eq_one_iff.1
      (le_antisymm h (List.length_pos_of_mem hq))
    rw [hq₀, List.mem_singleton] at hq hq'
    rw [hq, hq']
  · intro h
    match hquads : quadsOf s key with
    | [] => simp
    | [q] => simp
    | q :: q' :: rest =>
      rw [hquads] at hnodup h
      have heq : q = q' := h q (by simp) q' (by simp)
      simp [heq] at hnodup

/-- The map is held whatever happens. -/
theorem Holds.step {x : Store × (KeyRef → Option V)} (h : Holds x) (op : Enumeration × Op V) :
    Holds (step x op) := by
  obtain ⟨s, m⟩ := x
  obtain ⟨o, op⟩ := op
  cases op with
  | get key => exact h
  | contains key => exact h
  | set key v =>
    cases hencode : (ByteValue.encodeBytes v : Except CacheError (List UInt8)) with
    | error e =>
      have hsame : L5OxigraphBackend.step (s, m) (o, .set key v) = (s, m) := by
        simp [L5OxigraphBackend.step, Op.exec, Op.spec, L5OxigraphBackend.set, hencode]
      rw [hsame]
      exact h
    | ok bytes =>
      intro key'
      simp only [L5OxigraphBackend.step, Op.exec, Op.spec, hencode]
      by_cases hkey : key' = key
      · subst hkey
        rw [Function.update_self]
        refine ⟨fun hnone => absurd hnone (by simp), fun v' hv' => ?_⟩
        obtain rfl : v = v' := by simpa using hv'
        exact ⟨bytes, hencode, (mem_quadsOf_set hencode).2 (.inl ⟨rfl, rfl⟩)⟩
      · rw [Function.update_of_ne hkey]
        refine ⟨fun hnone => ?_, fun v' hv' => ?_⟩
        · refine List.eq_nil_iff_forall_not_mem.2 fun q hq => ?_
          rcases (mem_quadsOf_set hencode).1 hq with ⟨rfl, -⟩ | hq
          · exact hkey rfl
          · simp [(h key').1 hnone] at hq
        · obtain ⟨bytes', hencode', hmem⟩ := (h key').2 v' hv'
          exact ⟨bytes', hencode', (mem_quadsOf_set hencode).2 (.inr hmem)⟩
  | remove key =>
    intro key'
    simp only [L5OxigraphBackend.step, Op.exec, Op.spec]
    by_cases hkey : key' = key
    · subst hkey
      rw [Function.update_self]
      refine ⟨fun _ => ?_, fun v' hv' => absurd hv' (by simp)⟩
      exact List.eq_nil_iff_forall_not_mem.2 fun q hq => (mem_quadsOf_remove.1 hq).1 rfl
    · rw [Function.update_of_ne hkey]
      refine ⟨fun hnone => ?_, fun v' hv' => ?_⟩
      · refine List.eq_nil_iff_forall_not_mem.2 fun q hq => ?_
        have := (mem_quadsOf_remove.1 hq).2
        simp [(h key').1 hnone] at this
      · obtain ⟨bytes', hencode', hmem⟩ := (h key').2 v' hv'
        exact ⟨bytes', hencode', mem_quadsOf_remove.2 ⟨hkey, hmem⟩⟩

/-- What is found of a key that has at most one quad. -/
theorem findValue_of_quadsOf (s : Store) (o : Enumeration) (key : KeyRef) :
    (quadsOf s key = [] → findValue s o key = none) ∧
      ∀ q, quadsOf s key = [q] → findValue s o key = some (objectBytes q.object) := by
  have hperm : (s.quadsForPattern o (subjectFor key)).Perm (quadsOf s key) := o.perm _
  refine ⟨fun hnone => ?_, fun q hq => ?_⟩
  · rw [hnone] at hperm
    rw [findValue, hperm.eq_nil]
    rfl
  · have hmem : q ∈ quadsOf s key := by simp [hq]
    rw [hq] at hperm
    rw [findValue, hperm.eq_singleton]
    simp [(mem_quadsOf.1 hmem).2]

/-- While no key has two quads, the tier is the map. -/
theorem isMap_iff (hcodec : ∀ (v : V) bytes, ByteValue.encodeBytes v = .ok bytes →
      ByteValue.decodeBytes bytes = .ok v) {x : Store × (KeyRef → Option V)} (h : Holds x) :
    IsMap x ↔ ∀ key, (quadsOf x.1 key).length ≤ 1 := by
  obtain ⟨s, m⟩ := x
  refine ⟨IsMap.atMostOne, fun hone => ?_⟩
  have hfound : ∀ o key, L5OxigraphBackend.get s o key = .ok (m key) ∧
      L5OxigraphBackend.contains s o key = .ok (m key).isSome := by
    intro o key
    obtain ⟨hnone, hsome⟩ := h key
    obtain ⟨hempty, hsingle⟩ := findValue_of_quadsOf s o key
    cases hm : m key with
    | none =>
      have hfind := hempty (hnone hm)
      simp [L5OxigraphBackend.get, L5OxigraphBackend.contains, hfind]
    | some v =>
      obtain ⟨bytes, hencode, hmem⟩ := hsome v hm
      have hquads : quadsOf s key = [quadFor key bytes] := by
        obtain ⟨q, hq⟩ := List.length_eq_one_iff.1
          (le_antisymm (hone key) (List.length_pos_of_mem hmem))
        have hmem' : quadFor key bytes ∈ quadsOf s key := hmem
        rw [hq, List.mem_singleton] at hmem'
        rw [hq, hmem']
      have hfind := hsingle _ hquads
      simp [L5OxigraphBackend.get, L5OxigraphBackend.contains, hfind, quadFor, objectBytes,
        hexDecode_hexEncode, hcodec v bytes hencode, Except.map]
  exact ⟨fun o key => (hfound o key).1, fun o key => (hfound o key).2, hone⟩

/-- A step keeps the keys to one quad each exactly when it sets no key to another value. -/
theorem atMostOne_step_iff {x : Store × (KeyRef → Option V)} (h : Holds x)
    (hone : ∀ key, (quadsOf x.1 key).length ≤ 1) (op : Enumeration × Op V) :
    (∀ key, (quadsOf (step x op).1 key).length ≤ 1) ↔ Repeats x op := by
  obtain ⟨s, m⟩ := x
  obtain ⟨o, op⟩ := op
  have hone' : ∀ key, ∀ q ∈ quadsOf s key, ∀ q' ∈ quadsOf s key, q = q' :=
    fun key => length_quadsOf_le_one_iff.1 (hone key)
  cases op with
  | get key => exact iff_of_true hone trivial
  | contains key => exact iff_of_true hone trivial
  | remove key =>
    refine iff_of_true (fun key' => length_quadsOf_le_one_iff.2 fun q hq q' hq' => ?_) trivial
    exact hone' key' q (mem_quadsOf_remove.1 hq).2 q' (mem_quadsOf_remove.1 hq').2
  | set key v =>
    cases hencode : (ByteValue.encodeBytes v : Except CacheError (List UInt8)) with
    | error e =>
      have hsame : (step (s, m) (o, .set key v)).1 = s := by
        simp [step, Op.exec, L5OxigraphBackend.set, hencode]
      rw [hsame]
      refine iff_of_true hone ?_
      intro old bytes _ hbytes
      cases hencode.symm.trans hbytes
    | ok bytes =>
      constructor
      · intro hafter old bytes' hold hbytes'
        cases hencode.symm.trans hbytes'
        obtain ⟨was, hwas, hmem⟩ := (h key).2 old hold
        -- the old quad and the new one are both there
        have heq : quadFor key was = quadFor key bytes :=
          length_quadsOf_le_one_iff.1 (hafter key) _ ((mem_quadsOf_set hencode).2 (.inr hmem)) _
            ((mem_quadsOf_set hencode).2 (.inl ⟨rfl, rfl⟩))
        rw [hwas, quadFor_injective heq]
      · intro hrepeats key'
        refine length_quadsOf_le_one_iff.2 ?_
        have hnew : ∀ q ∈ quadsOf s key, q = quadFor key bytes := by
          intro q hq
          cases hm : m key with
          | none => simp [(h key).1 hm] at hq
          | some old =>
            obtain ⟨was, hwas, hmem⟩ := (h key).2 old hm
            cases hwas.symm.trans (hrepeats old bytes hm hencode)
            exact hone' key q hq _ hmem
        intro q hq q' hq'
        rcases (mem_quadsOf_set hencode).1 hq with ⟨rfl, rfl⟩ | hold
        · rcases (mem_quadsOf_set hencode).1 hq' with ⟨-, rfl⟩ | hold'
          · rfl
          · exact (hnew q' hold').symm
        · rcases (mem_quadsOf_set hencode).1 hq' with ⟨rfl, rfl⟩ | hold'
          · exact hnew q hold
          · exact hone' key' q hold q' hold'

/-- A tier and a map that are empty. -/
def unused (V : Type) : Store × (KeyRef → Option V) := (.new, fun _ => none)

theorem holds_unused : Holds (unused V) := by
  intro key
  exact ⟨fun _ => rfl, fun v hv => by cases hv⟩

/-- **The tier is a map exactly along the histories that never set a key to another value.** -/
theorem refines_map_iff (hcodec : ∀ (v : V) bytes, ByteValue.encodeBytes v = .ok bytes →
      ByteValue.decodeBytes bytes = .ok v) (history : List (Enumeration × Op V)) :
    Run.Along step (fun x op => IsMap (step x op)) (unused V) history ↔
      Run.Along step Repeats (unused V) history := by
  refine Run.along_inv_iff (I := IsMap) (K := Holds) (fun x op h => h.step op) ?_ holds_unused
    ((isMap_iff hcodec holds_unused).2 fun key => Nat.zero_le 1) history
  intro x op h hmap
  rw [isMap_iff hcodec (h.step op)]
  exact atMostOne_step_iff h hmap.atMostOne op

/-- The store answers in the order it keeps. -/
def inOrder : Enumeration := ⟨id, fun _ => .refl _⟩

/-- A key that is set, set again to its value, removed and set anew. -/
theorem refines_map_repeated : Run.Along step (fun x op => IsMap (step x op)) (unused (List UInt8))
    [(inOrder, .set [1] [7]), (inOrder, .set [1] [7]), (inOrder, .remove [1]),
      (inOrder, .set [1] [8])] := by
  refine (refines_map_iff (by rintro v _ ⟨⟩; rfl) _).2 ?_
  refine ⟨?_, ?_, trivial, ?_, trivial⟩
  · rintro old bytes ⟨⟩
  · rintro old bytes ⟨⟩ ⟨⟩
    rfl
  · rintro old bytes ⟨⟩

/-- A key that is set to another value has two quads, and `get` returns the older value when the
store yields that first. -/
theorem overwrite_accumulates :
    ¬ Run.Along step (fun x op => IsMap (step x op)) (unused (List UInt8))
      [(inOrder, .set [1] [7]), (inOrder, .set [1] [8])] ∧
    ∃ o : Enumeration, get ([(inOrder, .set [1] [7]), (inOrder, .set [1] [8])].foldl step
      (unused (List UInt8))).1 o [1] = .ok (some ([7] : List UInt8)) := by
  constructor
  · rintro ⟨-, hmap, -⟩
    exact absurd (hmap.atMostOne [1]) (by decide +kernel)
  · exact ⟨⟨List.reverse, List.reverse_perm⟩, by decide +kernel⟩

end L5OxigraphBackend

end TheSix
