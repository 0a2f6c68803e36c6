import TheSix.Lib.Slice
import TheSix.Manager.Context

/-!
# Keys in their buffers

`key.rs` and `CacheManager::encode_key` write keys into fixed buffers, slice by slice. Here they do
so too, with `none` for a slice operation out of bounds. None is: the raw key and the frame are
written to the front of their buffers or refused, and the answer is the one of `Key.encode`,
`frameTenantKey` and `encodeKey` (`encodeInto_eq`, `frameTenantKeyInto_eq`, `encodeKeyInto_eq`).

A frame is read in one way only (`frameTenantKeyInto_unambiguous`).
-/

namespace TheSix

open Slice

/-! ## Framing -/

/-- `frame_tenant_key`: the length of the frame, and the buffer with the frame in front. -/
def frameTenantKeyInto (tenant key buf : List UInt8) : Option (Except CacheError ℕ × List UInt8) :=
  if tenant.contains tenantSeparator then some (.error .configurationError, buf)
  else
    match (checkedAdd tenant.length 1).bind fun n => checkedAdd n key.length with
    | none => some (.error .configurationError, buf)
    | some needed =>
      if buf.length < needed then some (.error .configurationError, buf)
      else do
        let (front, rest) ← splitAtMut buf tenant.length
        let front ← copyRange front 0 front.length tenant
        let rest ← store rest 0 tenantSeparator
        let rest ← copyRange rest 1 (key.length + 1) key
        return (.ok needed, front ++ rest)

theorem length_frame (tenant key : List UInt8) :
    (tenant ++ tenantSeparator :: key).length = tenant.length + 1 + key.length := by
  simp only [List.length_append, List.length_cons]
  omega

/-- A frame that fits is written, and the rest of the buffer is left alone. -/
theorem frameTenantKeyInto_of_fits {tenant key buf : List UInt8} (hsep : tenantSeparator ∉ tenant)
    (hbuf : buf.length ≤ maxLength) (hfits : tenant.length + 1 + key.length ≤ buf.length) :
    frameTenantKeyInto tenant key buf = some (.ok (tenant.length + 1 + key.length),
      tenant ++ tenantSeparator :: key ++ buf.drop (tenant.length + 1 + key.length)) := by
  have hadd : (checkedAdd tenant.length 1).bind (fun n => checkedAdd n key.length) =
      some (tenant.length + 1 + key.length) := by
    have := length_lt hbuf
    rw [checkedAdd, if_pos (by omega), Option.bind_some, checkedAdd, if_pos (by omega)]
  have hcontains : tenant.contains tenantSeparator = false := by simpa using hsep
  -- the buffer is a place for the tenant, one for the separator, one for the key, and the rest
  obtain ⟨front, hfront, hbuf'⟩ := exists_append (show tenant.length ≤ buf.length by omega)
  have hlength : buf.length = front.length + (buf.drop tenant.length).length := by
    rw [← List.length_append, ← hbuf']
  have hdrop : buf.drop (tenant.length + 1 + key.length) =
      (buf.drop tenant.length).drop (1 + key.length) := by
    rw [List.drop_drop, Nat.add_assoc]
  cases hrest : buf.drop tenant.length with
  | nil =>
    rw [hrest] at hlength
    simp only [List.length_nil] at hlength
    omega
  | cons b rest =>
    rw [hrest, List.length_cons] at hlength
    obtain ⟨place, hplace, hrest'⟩ := exists_append (show key.length ≤ rest.length by omega)
    rw [hrest, Nat.add_comm 1, List.drop_succ_cons] at hdrop
    have hsplit : splitAtMut buf tenant.length = some (front, b :: rest) := by
      rw [hbuf', hrest]
      exact splitAtMut_append hfront.symm
    have htenant : copyRange front 0 front.length tenant = some tenant := by
      have := @copyRange_append _ [] front [] tenant 0 front.length rfl (by simp [hfront])
        hfront.symm
      simpa using this
    have hkey : copyRange (tenantSeparator :: rest) 1 (key.length + 1) key =
        some (tenantSeparator :: key ++ rest.drop key.length) := by
      have := @copyRange_append _ [tenantSeparator] place (rest.drop key.length) key 1
        (key.length + 1) rfl (by simp [Nat.add_comm]) hplace.symm
      rw [List.append_assoc, ← hrest'] at this
      simpa using this
    rw [frameTenantKeyInto, hcontains, if_neg Bool.false_ne_true, hadd]
    simp only [if_neg (Nat.not_lt.2 hfits), hsplit, htenant, hkey, store_cons_zero,
      Option.bind_eq_bind, Option.bind_some, Option.pure_def, hdrop]
    simp

/-- A frame that does not fit, or is no frame, leaves the buffer alone. -/
theorem frameTenantKeyInto_of_not_fits {tenant key buf : List UInt8}
    (h : tenantSeparator ∈ tenant ∨ buf.length < tenant.length + 1 + key.length) :
    frameTenantKeyInto tenant key buf = some (.error .configurationError, buf) := by
  unfold frameTenantKeyInto
  split_ifs with hcontains
  · rfl
  · have hfits := h.resolve_left (by simpa using hcontains)
    unfold checkedAdd
    split_ifs with hone
    · rw [Option.bind_some]
      split_ifs
      · exact if_pos hfits
      · rfl
    · rfl

/-- **The frame in its buffer is the frame.** -/
theorem frameTenantKeyInto_eq (tenant key : List UInt8) {buf : List UInt8}
    (hbuf : buf.length ≤ maxLength) :
    frameTenantKeyInto tenant key buf =
      some (written buf (frameTenantKey tenant key buf.length)) := by
  unfold frameTenantKey
  split_ifs with hsep hfits
  · exact frameTenantKeyInto_of_not_fits (.inl (by simpa using hsep))
  · exact frameTenantKeyInto_of_not_fits (.inr hfits)
  · rw [frameTenantKeyInto_of_fits (by simpa using hsep) hbuf (Nat.not_lt.1 hfits), written,
      length_frame]

/-- The frame in a buffer as large as the manager's. -/
theorem frameTenantKeyInto_of_length (tenant key : List UInt8) {buf : List UInt8}
    (hbuf : buf.length = maxKeySize) :
    frameTenantKeyInto tenant key buf =
      some (written buf (frameTenantKey tenant key maxKeySize)) := by
  have hslice : buf.length ≤ maxLength := by
    rw [hbuf]
    decide
  rw [frameTenantKeyInto_eq tenant key hslice, hbuf]

/-- What was framed can be read off the buffer. -/
theorem frameTenantKey_of_into {tenant key buf after : List UInt8} {needed : ℕ}
    (hbuf : buf.length ≤ maxLength)
    (h : frameTenantKeyInto tenant key buf = some (.ok needed, after)) :
    frameTenantKey tenant key buf.length = .ok (after.take needed) := by
  rw [frameTenantKeyInto_eq tenant key hbuf, Option.some.injEq] at h
  cases hframe : frameTenantKey tenant key buf.length with
  | error e =>
    rw [hframe] at h
    cases h
  | ok frame =>
    rw [hframe] at h
    cases h
    rw [List.take_left]

/-- **The frame is unambiguous.** Framing succeeds exactly when the frame fits the buffer; it then
writes the frame to the front and leaves the rest alone, and else it leaves the whole buffer alone.
Equal frames have the same tenant and the same key. -/
theorem frameTenantKeyInto_unambiguous {tenant : List UInt8} (hsep : tenantSeparator ∉ tenant)
    (tenant' key key' : List UInt8) (buf buf' : Slice UInt8) :
    (tenant.length + 1 + key.length ≤ buf.1.length →
      ∃ after, frameTenantKeyInto tenant key buf.1 =
          some (.ok (tenant.length + 1 + key.length), after) ∧
        after.length = buf.1.length ∧
        after.take (tenant.length + 1 + key.length) = tenant ++ tenantSeparator :: key ∧
        after.drop (tenant.length + 1 + key.length) =
          buf.1.drop (tenant.length + 1 + key.length)) ∧
    (buf.1.length < tenant.length + 1 + key.length →
      frameTenantKeyInto tenant key buf.1 = some (.error .configurationError, buf.1)) ∧
    ∀ needed needed' after after', frameTenantKeyInto tenant key buf.1 = some (.ok needed, after) →
      frameTenantKeyInto tenant' key' buf'.1 = some (.ok needed', after') →
      after.take needed = after'.take needed' → tenant = tenant' ∧ key = key' := by
  refine ⟨fun hfits => ?_, fun h => frameTenantKeyInto_of_not_fits (.inr h), ?_⟩
  · refine ⟨_, frameTenantKeyInto_of_fits hsep buf.2 hfits, ?_, ?_, ?_⟩
    · rw [List.length_append, length_frame, List.length_drop]
      omega
    · rw [← length_frame, List.take_left]
    · rw [← length_frame, List.drop_left]
  · intro needed needed' after after' h h' heq
    exact frameTenantKey_inj (frameTenantKey_of_into buf.2 h)
      (heq ▸ frameTenantKey_of_into buf'.2 h')

/-- A key with separators in it, in a buffer that it fills. -/
theorem frameTenantKeyInto_unambiguous_full :
    frameTenantKeyInto [97] [0, 98] [1, 2, 3, 4] = some (.ok 4, [97, 0, 0, 98]) ∧
      ¬ ∃ needed after, frameTenantKeyInto [] [0, 98] [1, 2, 3, 4] = some (.ok needed, after) ∧
        after.take needed = [97, 0, 0, 98] := by
  have hframe : frameTenantKeyInto [97] [0, 98] [1, 2, 3, 4] = some (.ok 4, [97, 0, 0, 98]) := by
    decide
  refine ⟨hframe, ?_⟩
  rintro ⟨needed, after, h, htake⟩
  have hsep : tenantSeparator ∉ [(97 : UInt8)] := by decide
  obtain ⟨-, -, hinj⟩ := frameTenantKeyInto_unambiguous hsep [] [0, 98] [0, 98]
    ⟨[1, 2, 3, 4], by decide⟩ ⟨[1, 2, 3, 4], by decide⟩
  cases (hinj 4 needed [97, 0, 0, 98] after hframe h htake.symm).1

/-! ## Encoding -/

/-- The body of `Key::encode`, for keys that are kept as their bytes. -/
def encodeInto (bytes buf : List UInt8) : Option (Except CacheError ℕ × List UInt8) :=
  if buf.length < bytes.length then some (.error .configurationError, buf)
  else (copyRange buf 0 bytes.length bytes).map fun buf => (.ok bytes.length, buf)

theorem encodeInto_eq (bytes buf : List UInt8) :
    encodeInto bytes buf = some (written buf
      (if buf.length < bytes.length then .error .configurationError else .ok bytes)) := by
  unfold encodeInto
  split_ifs with h
  · rfl
  · obtain ⟨place, hplace, hbuf⟩ := exists_append (Nat.not_lt.1 h)
    have := @copyRange_append _ [] place (buf.drop bytes.length) bytes 0 bytes.length rfl
      (by simp) hplace.symm
    rw [List.nil_append, ← hbuf] at this
    rw [this]
    rfl

/-- A key that is kept as its bytes: `String`, `&str` and `Vec<u8>`. -/
class ByteKey (K : Type) extends Key K where
  asBytes : K → List UInt8
  encode_eq : ∀ key room, Key.encode key room =
    if room < (asBytes key).length then .error .configurationError else .ok (asBytes key)

/-- `String`. -/
instance : ByteKey String where
  encode key room :=
    if room < key.toUTF8.toList.length then .error .configurationError else .ok key.toUTF8.toList
  asBytes key := key.toUTF8.toList
  encode_eq _ _ := rfl

/-- `&str`. -/
instance : ByteKey String.Slice where
  encode key room :=
    if room < key.copy.toUTF8.toList.length then .error .configurationError
    else .ok key.copy.toUTF8.toList
  asBytes key := key.copy.toUTF8.toList
  encode_eq _ _ := rfl

/-- `Vec<u8>`. -/
instance : ByteKey (List UInt8) where
  asBytes key := key
  encode_eq _ _ := rfl

variable {K : Type} [ByteKey K]

/-- `CacheManager::encode_key`: the key, and the caller's buffer. -/
def encodeKeyInto (key : K) (ctx : CacheContext) (buf : List UInt8) :
    Option (Except CacheError KeyRef × List UInt8) := do
  let (keyLen, raw) ← encodeInto (ByteKey.asBytes key) (List.replicate maxKeySize 0)
  match keyLen with
  | .error e => return (.error e, buf)
  | .ok keyLen =>
    let rawKey ← range raw 0 keyLen
    let (len, buf) ← frameTenantKeyInto ctx.tenant rawKey buf
    match len with
    | .error e => return (.error e, buf)
    | .ok len => return (.ok (← range buf 0 len), buf)

/-- **The buffers of `encode_key` do not show.** -/
theorem encodeKeyInto_eq (key : K) (ctx : CacheContext) {buf : List UInt8}
    (hbuf : buf.length = maxKeySize) :
    encodeKeyInto key ctx buf =
      some (encodeKey key ctx, (written buf (encodeKey key ctx)).2) := by
  unfold encodeKeyInto encodeKey
  rw [encodeInto_eq, ByteKey.encode_eq, List.length_replicate]
  split_ifs with hroom
  · rfl
  · dsimp only [written, bind, Option.bind_some]
    rw [range_append rfl, Option.bind_some, frameTenantKeyInto_of_length _ _ hbuf]
    dsimp only [Except.bind, Option.bind_some]
    cases frameTenantKey ctx.tenant (ByteKey.asBytes key) maxKeySize with
    | error e => rfl
    | ok frame =>
      dsimp only [written]
      rw [range_append rfl]
      rfl

end TheSix
