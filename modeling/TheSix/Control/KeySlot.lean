import TheSix.Control.Entry

/-!
# The control plane at one key

The control plane keeps at most one entry per key, and an entry, once made, stays. `KeySlot` is
that entry, or nothing when the key was never written. The methods of `Cachelito` come in two
shapes: those that find the entry and leave a missing one missing (`withEntry`), and those that
create it, and fail when the shard has no free slot (`withOrCreate`).

`PlaneOp` lists the methods, so that a history of control-plane calls on one key is a list.
-/

namespace TheSix

/-- The control-plane entry of one key, if it has one. -/
abbrev KeySlot := Option ControlEntry

namespace KeySlot

variable {β : Type}

/-- A method that finds the entry with `find_entry`, and answers `missing` without one. -/
def withEntry (s : KeySlot) (missing : β) (f : ControlEntry → β × ControlEntry) : β × KeySlot :=
  match s with
  | none => (missing, none)
  | some e => ((f e).1, some (f e).2)

/-- A method that finds the entry with `find_or_create_entry`. `room` says whether the shard has a
free slot on the key's probe; without one, the answer is `full`. -/
def withOrCreate (s : KeySlot) (address : KeyAddress) (room : Bool) (full : β)
    (f : ControlEntry → β × ControlEntry) : β × KeySlot :=
  match s with
  | some e => ((f e).1, some (f e).2)
  | none =>
    if room then ((f { address := address }).1, some (f { address := address }).2) else (full, none)

@[simp] theorem withEntry_some (e : ControlEntry) (missing : β) (f : ControlEntry → β × ControlEntry) :
    withEntry (some e) missing f = ((f e).1, some (f e).2) := rfl

@[simp] theorem withEntry_none (missing : β) (f : ControlEntry → β × ControlEntry) :
    withEntry none missing f = (missing, none) := rfl

@[simp] theorem withOrCreate_some (e : ControlEntry) (a : KeyAddress) (room : Bool) (full : β)
    (f : ControlEntry → β × ControlEntry) :
    withOrCreate (some e) a room full f = ((f e).1, some (f e).2) := rfl

/-! ## The methods of the control plane -/

def acquire (s : KeySlot) (a : KeyAddress) (room : Bool) (tier : TierId) (now : ℕ) :
    Except CacheError ControlSnapshot × KeySlot :=
  s.withOrCreate a room (.error .configurationError) fun e =>
    (.ok (e.acquire tier now).1, (e.acquire tier now).2)

def publish (s : KeySlot) (expected : Generation) (tier : TierId) (ttl : Option ℕ) (now : ℕ) :
    Except CacheError Unit × KeySlot :=
  s.withEntry (.error .miss) fun e => e.publish expected tier ttl now

def failWithError (s : KeySlot) (error : CacheError) : Except CacheError Unit × KeySlot :=
  s.withEntry (.error .miss) fun e => (.ok (), e.failWithError error)

def release (s : KeySlot) : Except CacheError Unit × KeySlot :=
  s.withEntry (.ok ()) fun e => (.ok (), e.release)

def invalidate (s : KeySlot) : Except CacheError Unit × KeySlot :=
  s.withEntry (.ok ()) fun e => (.ok (), e.invalidate)

def setGeneration (s : KeySlot) (a : KeyAddress) (room : Bool) (generation : Generation) :
    Except CacheError Unit × KeySlot :=
  s.withOrCreate a room (.error .configurationError) fun e =>
    (.ok (), { e with generation := generation })

def setTier (s : KeySlot) (a : KeyAddress) (room : Bool) (tier : TierId) :
    Except CacheError Unit × KeySlot :=
  s.withOrCreate a room (.error .configurationError) fun e => (.ok (), { e with tier := tier })

def setState (s : KeySlot) (a : KeyAddress) (room : Bool) (state : EntryState) :
    Except CacheError Unit × KeySlot :=
  s.withOrCreate a room (.error .configurationError) fun e => (.ok (), e.setState state)

/-- `Cachelito::peek`: it never creates an entry. -/
def peek (s : KeySlot) (now : ℕ) : ControlSnapshot :=
  match s with
  | none => .neverWritten
  | some e => e.peek now

def bumpGeneration (s : KeySlot) (a : KeyAddress) (room : Bool) :
    Except CacheError Generation × KeySlot :=
  s.withOrCreate a room (.error .configurationError) fun e =>
    (.ok e.bumpGeneration.1, e.bumpGeneration.2)

def releasePopulationClaim (s : KeySlot) : Bool × KeySlot :=
  s.withEntry false fun e => e.releasePopulationClaim

def reserveEviction (s : KeySlot) : Bool × KeySlot :=
  s.withEntry false fun e => e.reserveEviction

def prepare (s : KeySlot) (a : KeyAddress) (room : Bool) (expected : Option Generation)
    (targetTier : TierId) (kind : IntentKind) (now : ℕ) :
    Except CacheError CommitToken × KeySlot :=
  s.withOrCreate a room (.error .configurationError) fun e =>
    e.prepare expected targetTier kind now

def commit (s : KeySlot) (token : CommitToken) (ttl : Option ℕ) (now : ℕ) :
    Except CacheError Unit × KeySlot :=
  s.withEntry (.error .miss) fun e => e.commit token ttl now

def abort (s : KeySlot) (error : CacheError) : Except CacheError Unit × KeySlot :=
  s.withEntry (.ok ()) fun e => (.ok (), e.abort error)

def abortProvenClean (s : KeySlot) (error : CacheError) : Except CacheError Unit × KeySlot :=
  s.withEntry (.ok ()) fun e => (.ok (), e.abortProvenClean error)

def abortIntentByAddress (s : KeySlot) (error : CacheError) : Bool × KeySlot :=
  s.withEntry false fun e => e.abortIntentByAddress error

def sweepExpired (s : KeySlot) (now : ℕ) : Bool × KeySlot :=
  s.withEntry false fun e => e.sweepExpired now

end KeySlot

/-! ## Histories of calls on one key -/

/-- `RecoveryDirection`. -/
inductive RecoveryDirection
  | abort
  | completeForward
  | externalReconciliation
  deriving DecidableEq, Repr

/-- A method call of the control plane on one key. A token is named by the number of the `prepare`
that issued it. -/
inductive PlaneOp
  | acquire (tier : TierId)
  | publish (expected : Generation) (tier : TierId) (ttl : Option ℕ)
  | failWithError (error : CacheError)
  | release
  | invalidate
  | setGeneration (generation : Generation)
  | setTier (tier : TierId)
  | setState (state : EntryState)
  | peek
  | bumpGeneration
  | releasePopulationClaim
  | reserveEviction
  | prepare (expected : Option Generation) (targetTier : TierId) (kind : IntentKind)
  | commit (issued : ℕ) (ttl : Option ℕ)
  | abort (issued : ℕ) (error : CacheError)
  | abortProvenClean (issued : ℕ) (error : CacheError)
  | sweepExpired
  | abortIntentByAddress (error : CacheError)
  | resolveIntent (intent : CommitIntent) (direction : RecoveryDirection)
  deriving DecidableEq

/-- A call, with the instant it is made at and whether the shard has room for a new entry. -/
structure PlaneCall where
  now : ℕ
  room : Bool
  op : PlaneOp
  deriving DecidableEq

/-- The tokens the `prepare` calls of a history have issued, oldest first, with the key's entry. -/
structure PlaneState where
  address : KeyAddress
  slot : KeySlot
  tokens : List CommitToken

namespace PlaneState

/-- The answer of `prepare` in a state. -/
def prepared (s : PlaneState) (c : PlaneCall) (expected : Option Generation) (targetTier : TierId)
    (kind : IntentKind) : Except CacheError CommitToken :=
  (s.slot.prepare s.address c.room expected targetTier kind c.now).1

/-- The answer of `commit` with the token of a `prepare`; `none` when it was not issued. -/
def commitAnswer (s : PlaneState) (now issued : ℕ) (ttl : Option ℕ) :
    Option (Except CacheError Unit) :=
  s.tokens[issued]?.map fun token => (s.slot.commit token ttl now).1

/-- The entry after a call. -/
def slotAfter (s : PlaneState) (c : PlaneCall) : KeySlot :=
  match c.op with
  | .acquire tier => (s.slot.acquire s.address c.room tier c.now).2
  | .publish g tier ttl => (s.slot.publish g tier ttl c.now).2
  | .failWithError e => (s.slot.failWithError e).2
  | .release => s.slot.release.2
  | .invalidate => s.slot.invalidate.2
  | .setGeneration g => (s.slot.setGeneration s.address c.room g).2
  | .setTier tier => (s.slot.setTier s.address c.room tier).2
  | .setState st => (s.slot.setState s.address c.room st).2
  | .peek => s.slot
  | .bumpGeneration => (s.slot.bumpGeneration s.address c.room).2
  | .releasePopulationClaim => s.slot.releasePopulationClaim.2
  | .reserveEviction => s.slot.reserveEviction.2
  | .prepare expected tier kind => (s.slot.prepare s.address c.room expected tier kind c.now).2
  | .commit issued ttl =>
    match s.tokens[issued]? with
    | none => s.slot
    | some token => (s.slot.commit token ttl c.now).2
  | .abort issued e =>
    match s.tokens[issued]? with
    | none => s.slot
    | some _ => (s.slot.abort e).2
  | .abortProvenClean issued e =>
    match s.tokens[issued]? with
    | none => s.slot
    | some _ => (s.slot.abortProvenClean e).2
  | .sweepExpired => (s.slot.sweepExpired c.now).2
  | .abortIntentByAddress e => (s.slot.abortIntentByAddress e).2
  | .resolveIntent intent direction =>
    match direction with
    | .abort => (s.slot.abort .uncommittedIntent).2
    | .completeForward =>
      (s.slot.commit
        { address := s.address, generation := intent.generation, kind := intent.kind,
          targetTier := intent.targetTier } none c.now).2
    | .externalReconciliation => s.slot

/-- The state after a call. -/
def step (s : PlaneState) (c : PlaneCall) : PlaneState where
  address := s.address
  slot := s.slotAfter c
  tokens :=
    match c.op with
    | .prepare expected tier kind =>
      match s.prepared c expected tier kind with
      | .ok token => s.tokens ++ [token]
      | .error _ => s.tokens
    | _ => s.tokens

end PlaneState

end TheSix
