import TheSix.Planes.Quiescence
import TheSix.Sequential.Exact

/-!
# A cache is a map

Over rungs that are exact maps and never fail, the calls of one client answer as on a plain map
(`runs_exactly`), although older copies may remain on other rungs. A call sees one key: what it does to
the planes is what it does to the world of its key (`view`), and the worlds of keys at other addresses
stay as they are.
-/

namespace TheSix

open Coroutine

/-- A rung that is an exact map for values without a TTL. -/
class ExactTier (T : Type) (V : outParam Type) [CacheTier T V] where
  content : T → KeyRef → Option V
  get_eq : ∀ (t : T) k now, (CacheTier.get t k now).1 = .ok (content t k)
  content_get : ∀ (t : T) k now, content (CacheTier.get t k now).2 = content t
  set_eq : ∀ (t : T) k v now, (CacheTier.set t k v none now).1 = .ok ()
  content_set : ∀ (t : T) k v now,
    content (CacheTier.set t k v none now).2 = Function.update (content t) k (some v)
  remove_eq : ∀ (t : T) k now, (CacheTier.remove t k now).1 = .ok ()
  content_remove : ∀ (t : T) k now,
    content (CacheTier.remove t k now).2 = Function.update (content t) k none
  contains_eq : ∀ (t : T) k now, CacheTier.contains t k now = .ok (content t k).isSome

variable {T V : Type} [CacheTier T V] [ExactTier T V]

namespace Planes

/-- What the planes are for a key. -/
def view (P : Planes T) (key : KeyRef) : KeyWorld V where
  now := P.now
  address := P.address key
  slot := P.slots (P.address key)
  rungs rung := ExactTier.content (P.rungs rung) key
  failures := P.failures

/-- Nothing has changed but the entry at the address of a key and what the rungs hold for the key. -/
structure Confined (key : KeyRef) (P P' : Planes T) : Prop where
  placement : P'.placement = P.placement
  now : P'.now = P.now
  slots : ∀ a ≠ P.address key, P'.slots a = P.slots a
  content : ∀ rung, ∀ k ≠ key,
    ExactTier.content (P'.rungs rung) k = ExactTier.content (P.rungs rung) k

section View

variable {P P' : Planes T} {key : KeyRef}

theorem Confined.refl (P : Planes T) : Confined key P P :=
  ⟨rfl, rfl, fun _ _ => rfl, fun _ _ _ => rfl⟩

theorem Confined.trans {P'' : Planes T} (h : Confined key P P') (h' : Confined key P' P'') :
    Confined key P P'' := by
  have haddress : P'.address key = P.address key := by rw [address, h.placement, address]
  exact ⟨h'.placement.trans h.placement, h'.now.trans h.now,
    fun a ha => (h'.slots a (haddress ▸ ha)).trans (h.slots a ha),
    fun rung k hk => (h'.content rung k hk).trans (h.content rung k hk)⟩

theorem confined_putSlot (s : KeySlot) : Confined key P (P.putSlot (P.address key) s) :=
  ⟨rfl, rfl, fun _ ha => Function.update_of_ne ha _ _, fun _ _ _ => rfl⟩

theorem view_putSlot (s : KeySlot) :
    (P.putSlot (P.address key) s).view key = { P.view key with slot := s } := by
  simp [view, putSlot, address]

/-- A rung that holds something else for the key, and the same for all others. -/
theorem confined_putRung {rung : TierId} {t : T} {x : Option V}
    (h : ExactTier.content t = Function.update (ExactTier.content (P.rungs rung)) key x) :
    Confined key P (P.putRung rung t) ∧
      (P.putRung rung t).view key = (P.view key).store rung x := by
  constructor
  · refine ⟨rfl, rfl, fun _ _ => rfl, fun r k hk => ?_⟩
    by_cases hr : r = rung
    · subst hr
      simp [putRung, h, hk]
    · simp [putRung, hr]
  · have hrungs : (fun r => ExactTier.content ((P.putRung rung t).rungs r) key) =
        Function.update (fun r => ExactTier.content (P.rungs r) key) rung x := by
      funext r
      by_cases hr : r = rung
      · subst hr
        simp [putRung, h]
      · simp [putRung, hr]
    simp only [view, hrungs]
    rfl

theorem store_self (w : KeyWorld V) (rung : TierId) : w.store rung (w.rungs rung) = w := by
  simp [KeyWorld.store]

/-- **The planes do to a key what its world does**, and nothing to the others. -/
theorem serve_of_calm {o : ℕ → Req V → Outcome V} (hroom : ∀ n q, (o n q).room = true) {q : Req V}
    {a : q.Answer} {n : ℕ} {s' : KeyWorld V × ℕ}
    (h : KeyWorld.calm (fun n => (o n .fetch).fetched) q (P.view key, n) = some (a, s')) :
    ∃ P', serve key o q (P, n) = some (a, P', s'.2) ∧ P'.view key = s'.1 ∧ Confined key P P' := by
  cases q with
  | evictionCandidate | reserveEviction | removeIfAddress | notified => cases h
  | peek | fetch | sleep | yieldNow | tierHealth =>
    cases h
    exact ⟨P, rfl, rfl, .refl P⟩
  | acquire | setState | prepare =>
    cases h
    refine ⟨_, by simp only [serve, exec, hroom]; rfl, view_putSlot _, confined_putSlot _⟩
  | publish | failWithError | invalidate | release | commit | abort | abortProvenClean =>
    cases h
    exact ⟨_, rfl, view_putSlot _, confined_putSlot _⟩
  | tierGet rung =>
    cases h
    have hcontent : ExactTier.content (CacheTier.get (P.rungs rung) key P.now).2 =
        Function.update (ExactTier.content (P.rungs rung)) key (ExactTier.content (P.rungs rung) key) := by
      rw [ExactTier.content_get, Function.update_eq_self]
    obtain ⟨hconfined, hview⟩ := confined_putRung hcontent
    refine ⟨_, ?_, hview.trans (store_self _ rung), hconfined⟩
    rw [serve, exec, onRung, ExactTier.get_eq]
    rfl
  | tierSet rung v ttl =>
    cases ttl with
    | some d => cases h
    | none =>
      cases h
      obtain ⟨hconfined, hview⟩ := confined_putRung (ExactTier.content_set (P.rungs rung) key v P.now)
      refine ⟨_, ?_, hview, hconfined⟩
      rw [serve, exec, onRung, ExactTier.set_eq]
      rfl
  | tierRemove rung =>
    cases h
    obtain ⟨hconfined, hview⟩ := confined_putRung (ExactTier.content_remove (P.rungs rung) key P.now)
    refine ⟨_, ?_, hview, hconfined⟩
    rw [serve, exec, onRung, ExactTier.remove_eq]
    rfl
  | tierContains rung =>
    cases h
    refine ⟨P, ?_, rfl, .refl P⟩
    rw [serve, exec, ExactTier.contains_eq]
    simp [view, Req.isFetch]
  | register notify =>
    cases notify <;> cases h <;> exact ⟨P, rfl, rfl, .refl P⟩
  | record rung result =>
    cases h
    refine ⟨P.recordOutcome rung result, rfl, ?_, ?_⟩
    · cases result with
      | ok u => rfl
      | error e => cases e <;> rfl
    · refine ⟨recordOutcome_placement _ _ _, recordOutcome_now _ _ _, fun a _ => ?_, fun r k _ => ?_⟩
      · rw [recordOutcome_slots]
      · rw [recordOutcome_rungs]

end View

/-- The planes hold a plain map of some keys. -/
def Represents (K : Set KeyRef) (P : Planes T) (m : KeyRef → Option V) : Prop :=
  ∀ k ∈ K, (P.view k).Stores (m k)

section Represents

variable {K : Set KeyRef} {P P' : Planes T} {m : KeyRef → Option V} {key : KeyRef}

/-- A call that is confined to a key changes the map at the key only. -/
theorem Represents.update (h : Represents K P m) (hK : Set.InjOn (P.address ·) K) (hkey : key ∈ K)
    (hconfined : Confined key P P') {x : Option V} (hx : (P'.view key).Stores x) :
    Represents K P' (Function.update m key x) := by
  intro k hk
  by_cases hkk : k = key
  · subst hkk
    rw [Function.update_self]
    exact hx
  · rw [Function.update_of_ne hkk]
    have haddress : P.address k ≠ P.address key := fun heq => hkk (hK hk hkey heq)
    refine (h k hk).congr ?_ ?_
    · simp only [KeyWorld.entry, view, address, hconfined.placement] at haddress ⊢
      rw [hconfined.slots _ haddress]
    · funext rung
      exact hconfined.content rung k hkk

theorem Represents.tick (h : Represents K P m) (d : ℕ) : Represents K (P.tick d) m :=
  fun k hk => (h k hk).congr rfl rfl

/-- **One call over exact rungs**: the answer and the fetches are those of the plain map. -/
theorem Represents.call (h : Represents K P m) (hK : Set.InjOn (P.address ·) K)
    {o : ℕ → Req V → Outcome V} (hroom : ∀ n q, (o n q).room = true) {v : V}
    (hfetch : (o 0 .fetch).fetched = .ok v) {c : Call V} (hc : c.Unlimited c.key) (hkey : c.key ∈ K) :
    ∃ P', c.runOn 6 o P = some ((c.onValue (o 0 .fetch).fetched (m c.key)).1, P',
          (c.onValue (o 0 .fetch).fetched (m c.key)).2.2) ∧
      P'.placement = P.placement ∧
      Represents K P' (Function.update m c.key (c.onValue (o 0 .fetch).fetched (m c.key)).2.1) := by
  obtain ⟨w', heval, hw'⟩ := (h c.key hkey).call (f := fun n => (o n .fetch).fetched) hc hfetch
  have hstep : ∀ {q : Req V} {s : Planes T × ℕ} {a : q.Answer} {s' : KeyWorld V × ℕ},
      Confined c.key P s.1 → KeyWorld.calm (fun n => (o n .fetch).fetched) q (s.1.view c.key, s.2) =
        some (a, s') → ∃ s₁ : Planes T × ℕ, serve c.key o q s = some (a, s₁) ∧
          (s₁.1.view c.key, s₁.2) = s' ∧ Confined c.key P s₁.1 := by
    intro q s a s' hJ hcalm
    obtain ⟨P', hserve, hview, hconfined⟩ := serve_of_calm hroom hcalm
    exact ⟨(P', s'.2), hserve, by rw [hview], hJ.trans hconfined⟩
  obtain ⟨⟨P', n⟩, hrun, hview, hconfined⟩ := Prog.eval_lift (p := c.prog 6) (w := (P, 0))
    (f := fun s : Planes T × ℕ => (s.1.view c.key, s.2)) (J := fun s => Confined c.key P s.1)
    hstep (Confined.refl P) heval
  obtain ⟨rfl, rfl⟩ : P'.view c.key = w' ∧ n = _ := Prod.mk.inj hview
  exact ⟨P', hrun, hconfined.placement, h.update hK hkey hconfined hw'⟩

end Represents

end Planes

/-! ## Histories -/

/-- What the calls of a history answer on a plain map, and how often each of them fetches. -/
def onMap : List (Act V) → (KeyRef → Option V) → List (Reply V × ℕ)
  | [], _ => []
  | x :: xs, m =>
    let r := x.call.onValue (x.env 0 .fetch).fetched (m x.call.key)
    (r.1, r.2.2) :: onMap xs (Function.update m x.call.key r.2.1)

/-- A call on one of the keys, by a known caller without a TTL and under a policy that names cache rungs,
while the shards have room and the fetch succeeds. -/
structure Act.Plain (K : Set KeyRef) (x : Act V) : Prop where
  call : x.call.Unlimited x.call.key
  key : x.call.key ∈ K
  room : ∀ n q, (x.env n q).room = true
  fetch : ∃ v, (x.env 0 .fetch).fetched = .ok v

/-- **Sequential exactness**: over six rungs that are exact maps, the calls of one client on keys with
different addresses answer as on a plain map that is empty at first. -/
theorem runs_exactly {p : Placement} {rungs : TierId → T} {K : Set KeyRef}
    (hK : Set.InjOn (KeyAddress.of · p) K) {acts : List (Act V)} (hacts : ∀ x ∈ acts, x.Plain K) :
    ∃ P, (Planes.empty p rungs).runs 6 acts = some (onMap acts fun _ => none, P) := by
  have hruns : ∀ {acts : List (Act V)} {P : Planes T} {m : KeyRef → Option V},
      (∀ x ∈ acts, x.Plain K) → P.placement = p → P.Represents K m →
        ∃ P', P.runs 6 acts = some (onMap acts m, P') := by
    intro acts
    induction acts with
    | nil => exact fun _ _ _ => ⟨_, rfl⟩
    | cons x acts ih =>
      intro P m hacts hp h
      obtain ⟨hplain, hrest⟩ := List.forall_mem_cons.1 hacts
      obtain ⟨v, hfetch⟩ := hplain.fetch
      have hinj : Set.InjOn ((P.tick x.wait).address ·) K := by
        have haddress : ∀ k, (P.tick x.wait).address k = KeyAddress.of k p := by
          intro k
          rw [← hp]
          rfl
        simpa only [haddress] using hK
      obtain ⟨P₁, hrun, hp₁, h₁⟩ := (h.tick x.wait).call hinj hplain.room hfetch hplain.call hplain.key
      obtain ⟨P₂, hlast⟩ := ih hrest (hp₁.trans hp) h₁
      exact ⟨P₂, by rw [Planes.runs, hrun, Option.bind_some, hlast]; rfl⟩
  refine hruns hacts rfl fun k _ => ?_
  have hentry : ((Planes.empty p rungs).view k).entry =
      { address := (Planes.empty p rungs).address k } := rfl
  refine KeyWorld.stores_none ⟨?_, ?_, ?_, ?_⟩ ?_ ?_ <;> simp [hentry]

/-- A rung that is a map. -/
structure MapTier (V : Type) where
  content : KeyRef → Option V

instance {V : Type} : CacheTier (MapTier V) V where
  get t k _ := (.ok (t.content k), t)
  set t k v _ _ := (.ok (), ⟨Function.update t.content k (some v)⟩)
  remove t k _ := (.ok (), ⟨Function.update t.content k none⟩)
  contains t k _ := .ok (t.content k).isSome
  evictionCandidate t _ cursor := (none, cursor, t)
  removeIfAddress t _ := (.ok false, t)

instance {V : Type} : ExactTier (MapTier V) V where
  content := MapTier.content
  get_eq _ _ _ := rfl
  content_get _ _ _ := rfl
  set_eq _ _ _ _ := rfl
  content_set _ _ _ _ := rfl
  remove_eq _ _ _ := rfl
  content_remove _ _ _ := rfl
  contains_eq _ _ _ := rfl

/-- A value is written twice, promoted over the older copy, replaced on a colder rung and removed. -/
def residues : List (Act ℕ) :=
  [.set (.naming [0, 97] .L1 none) 1, .set (.naming [0, 97] .L2 none) 2,
    .set (.naming [0, 98] .L0 none) 5, .promote (.naming [0, 97] .L0 none),
    .get (.naming [0, 97] .L0 none), .refresh (.naming [0, 97] .L4 none),
    .exists (.naming [0, 97] .L0 none), .demote (.naming [0, 97] .L0 none),
    .remove (.naming [0, 97] .L0 none), .getOrFetch (.naming [0, 97] .L3 none),
    .invalidate (.naming [0, 98] .L5 none), .get (.naming [0, 98] .L0 none)].map
    fun c => { env := fun _ _ => { fetched := .ok 3 }, call := c }

theorem residues_run_exactly :
    ∃ P, (Planes.empty .default fun _ => (⟨fun _ => none⟩ : MapTier ℕ)).runs 6 residues =
      some (onMap residues fun _ => none, P) := by
  have haddress : KeyAddress.of [0, 97] .default ≠ KeyAddress.of [0, 98] .default := by decide +kernel
  have hkeys : Set.InjOn (KeyAddress.of · .default) {[0, 97], [0, 98]} :=
    Set.injOn_pair.2 fun h => absurd h haddress
  have hnaming : ∀ key rung, rung.isCacheRung = true → (Args.naming key rung none).Plain key :=
    fun _ _ hrung => ⟨rfl, rfl, rfl, fun _ => rfl, fun _ => hrung⟩
  refine runs_exactly hkeys ?_
  simp only [residues, List.map_cons, List.map_nil, List.forall_mem_cons]
  refine ⟨?_, ?_, ?_, ?_, ?_, ?_, ?_, ?_, ?_, ?_, ?_, ?_, by simp⟩ <;>
    exact ⟨hnaming _ _ rfl, by simp [Call.key, Args.naming, Except.toOption], fun _ _ => rfl, 3, rfl⟩

example : (onMap residues fun _ => none).map Prod.fst =
    [.done (.ok ()), .done (.ok ()), .done (.ok ()), .done (.ok ()), .read (.ok (some 2)),
      .refreshed (.ok ⟨some 3, true⟩), .found (.ok true), .done (.ok ()), .done (.ok ()),
      .fetched (.ok 3), .done (.ok ()), .read (.error .miss)] := by
  decide

end TheSix
