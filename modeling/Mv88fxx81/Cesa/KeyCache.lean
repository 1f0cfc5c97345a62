import Mv88fxx81.Cesa.Session
import Mv88fxx81.Lib.Run

/-!
# Coherence of the key cache

A session and its slot record each other, and the slot holds the session's key
material, in every state that is reached by opening and closing sessions and by
starting requests of open sessions. A request of a closed session breaks this:
closing a session leaves the slot number in its entry, and the slot may belong to
another session when the request is started.
-/

namespace Mv88fxx81.Cesa

open TransitionSystem

/-- The operations on the key store: opening a session, closing one, and the
start of a request, which loads the slot of its session. -/
inductive KeyEvent
  | sessionOpen (session : OpenSession)
  | sessionClose (sid : ℕ)
  | start (sid : ℕ)

/-- The answers: a status and a session identifier, a status, and the slot the
descriptor of the request is built against. -/
inductive KeyAnswer
  | opened (status : Status) (sid : ℕ)
  | closed (status : Status)
  | started (cacheIdx : ℤ)

/-- One operation on the key store. Requests exist only for identifiers below the
size of the database. -/
def keyStep (env : OpenEnv) (ks : KeyStore) : KeyEvent → Option (KeyAnswer × KeyStore)
  | .sessionOpen session =>
    let (status, sid, ks') := mvCesaSessionOpen env session ks
    some (.opened status sid, ks')
  | .sessionClose sid =>
    let (status, ks') := mvCesaSessionClose sid ks
    some (.closed status, ks')
  | .start sid =>
    if sid < ks.maxSA then
      let ks' := (mvCesaCacheSramUpdate sid ks).2
      some (.started (ks'.sad sid).cacheIdx, ks')
    else none

/-- The condition on the steps of a run: requests are started for open sessions only. -/
def StartsOpen (ks : KeyStore) : KeyEvent → Prop
  | .start sid => (ks.sad sid).valid = true
  | _ => True

instance (ks : KeyStore) (e : KeyEvent) : Decidable (StartsOpen ks e) :=
  match e with
  | .start sid => inferInstanceAs (Decidable ((ks.sad sid).valid = true))
  | .sessionOpen _ => inferInstanceAs (Decidable True)
  | .sessionClose _ => inferInstanceAs (Decidable True)

/-- The slot `i` belongs to session `sid` and holds its key material. -/
structure KeyStore.Owns (ks : KeyStore) (sid : ℕ) (i : ℤ) : Prop where
  slot_nonneg : 0 ≤ i
  slot_lt : i < maxCacheSA
  owner : (ks.cacheSA i).sid = sid
  keys : (ks.cacheSA i).keys = (ks.sad sid).cacheSA.keys

/-- The key cache is coherent: the replacement order ranges over its slots, every
open session with a slot number owns that slot, and every slot with an owner is
the slot of an open session. -/
structure KeyStore.Coherent (ks : KeyStore) : Prop where
  order : ∃ order, ks.lru.Represents order ∧ ∀ i : ℤ, i ∈ order ↔ 0 ≤ i ∧ i < maxCacheSA
  owns : ∀ sid : ℕ, sid < ks.maxSA → (ks.sad sid).valid = true →
    (ks.sad sid).cacheIdx ≠ mvInvalid → ks.Owns sid (ks.sad sid).cacheIdx
  owner_open : ∀ i : ℤ, 0 ≤ i → i < maxCacheSA → (ks.cacheSA i).sid ≠ mvInvalid →
    ∃ sid : ℕ, sid < ks.maxSA ∧ (ks.cacheSA i).sid = sid ∧ (ks.sad sid).valid = true ∧
      (ks.sad sid).cacheIdx = i

/-- The initial store is coherent. -/
theorem keyStoreInit_coherent (numOfSession : ℕ) : (keyStoreInit numOfSession).Coherent := by
  refine ⟨⟨_, mvLruCacheInit_represents 8, ?_⟩, ?_, ?_⟩
  · intro i
    simp only [List.mem_map, List.mem_range, maxCacheSA]
    constructor
    · rintro ⟨n, hn, rfl⟩
      omega
    · rintro ⟨hnonneg, hlt⟩
      exact ⟨i.toNat, by omega, by omega⟩
  · intro sid _ hvalid
    simp [keyStoreInit, zeroSA] at hvalid
  · intro i _ _ howner
    simp [keyStoreInit] at howner

/-- The slot to be replaced is one of the cache. -/
theorem KeyStore.Coherent.least_range {ks : KeyStore} (hcoherent : ks.Coherent) :
    0 ≤ ks.lru.least ∧ ks.lru.least < maxCacheSA := by
  obtain ⟨order, hrep, hmem⟩ := hcoherent.order
  exact (hmem _).mp (List.mem_of_head? hrep.head)

/-- Moving a slot of the cache keeps the replacement order over its slots. -/
theorem order_update {lru : LruCache} {i : ℤ} (hi : 0 ≤ i ∧ i < maxCacheSA)
    (horder : ∃ order, lru.Represents order ∧ ∀ j : ℤ, j ∈ order ↔ 0 ≤ j ∧ j < maxCacheSA) :
    ∃ order, (mvCesaCacheIdxUpdate lru i).Represents order ∧
      ∀ j : ℤ, j ∈ order ↔ 0 ≤ j ∧ j < maxCacheSA := by
  obtain ⟨order, hrep, hmem⟩ := horder
  refine ⟨_, mvCesaCacheIdxUpdate_represents hrep ((hmem i).mpr hi), ?_⟩
  intro j
  rw [← hmem j, List.mem_append, List.mem_singleton, hrep.nodup.mem_erase_iff]
  by_cases hj : j = i
  · subst hj
    simp [(hmem j).mpr hi]
  · simp [hj]

/-- Moving a slot of the cache keeps the replacement order over its slots. -/
theorem order_delete {lru : LruCache} {i : ℤ} (hi : 0 ≤ i ∧ i < maxCacheSA)
    (horder : ∃ order, lru.Represents order ∧ ∀ j : ℤ, j ∈ order ↔ 0 ≤ j ∧ j < maxCacheSA) :
    ∃ order, (mvCesaCacheIdxDelete lru i).Represents order ∧
      ∀ j : ℤ, j ∈ order ↔ 0 ≤ j ∧ j < maxCacheSA := by
  obtain ⟨order, hrep, hmem⟩ := horder
  refine ⟨_, mvCesaCacheIdxDelete_represents hrep ((hmem i).mpr hi), ?_⟩
  intro j
  rw [← hmem j, List.mem_cons, hrep.nodup.mem_erase_iff]
  by_cases hj : j = i
  · subst hj
    simp [(hmem j).mpr hi]
  · simp [hj]

/-- Refilling a free entry, with a valid one only if it has no slot, keeps the
cache coherent. -/
theorem KeyStore.Coherent.refill {ks : KeyStore} {sid : ℕ} {sa : SA} (hcoherent : ks.Coherent)
    (hfree : (ks.sad sid).valid = false)
    (hsa : sa.valid = true → sa.cacheIdx = mvInvalid) : (ks.setSA sid sa).Coherent := by
  refine ⟨hcoherent.order, ?_, ?_⟩
  · intro other hlt hvalid hslot
    by_cases heq : other = sid
    · subst heq
      rw [setSA_self] at hvalid hslot
      exact absurd (hsa hvalid) hslot
    · have hne : (other : ℤ) ≠ sid := by omega
      rw [setSA_of_ne _ _ hne] at hvalid hslot ⊢
      obtain ⟨hnonneg, hlt', howner, hkeys⟩ := hcoherent.owns other hlt hvalid hslot
      exact ⟨hnonneg, hlt', howner, by rw [setSA_of_ne _ _ hne]; exact hkeys⟩
  · intro i hnonneg hlt howner
    obtain ⟨other, hother, hsid, hvalid, hslot⟩ := hcoherent.owner_open i hnonneg hlt howner
    have hne : (other : ℤ) ≠ sid := by
      intro heq
      rw [heq, hfree] at hvalid
      cases hvalid
    exact ⟨other, hother, hsid, by rwa [setSA_of_ne _ _ hne], by rwa [setSA_of_ne _ _ hne]⟩

/-- Opening a session keeps the cache coherent. -/
theorem mvCesaSessionOpen_coherent {ks : KeyStore} (env : OpenEnv) (session : OpenSession)
    (hcoherent : ks.Coherent) : (mvCesaSessionOpen env session ks).2.2.Coherent := by
  rcases mvCesaSessionOpen_cases env session ks with
    ⟨-, hsame⟩ | ⟨sid, sa, hfree, hset, ⟨-, -, -, hslot⟩ | ⟨-, hinvalid⟩⟩
  · rwa [hsame]
  · rw [hset]
    exact hcoherent.refill (freeSid_some hfree).2 fun _ => hslot
  · rw [hset]
    refine hcoherent.refill (freeSid_some hfree).2 fun hvalid => ?_
    rw [hinvalid] at hvalid
    cases hvalid

/-- Entries of one association have the same flag and key material. -/
theorem association_valid {sa sa' : SA} (h : sa.association = sa'.association) :
    sa.valid = sa'.valid ∧ sa.cacheSA.keys = sa'.cacheSA.keys := by
  have hvalid := congrArg SA.valid h
  have hkeys := congrArg (fun sa => sa.cacheSA.keys) h
  exact ⟨hvalid, hkeys⟩

/-- Two open sessions own different slots. -/
theorem KeyStore.Owns.sid_unique {ks : KeyStore} {sid other : ℕ} {i : ℤ} (howns : ks.Owns sid i)
    (howns' : ks.Owns other i) : sid = other := by
  have := howns.owner.symm.trans howns'.owner
  omega

/-- Closing a session that has no slot. -/
theorem KeyStore.Coherent.closeUncached {ks : KeyStore} {sid : ℕ} (hcoherent : ks.Coherent)
    (hslot : (ks.sad sid).cacheIdx = mvInvalid) :
    (ks.setSA sid { ks.sad sid with valid := false }).Coherent := by
  refine ⟨hcoherent.order, ?_, ?_⟩
  · intro other hlt hvalid hother
    by_cases heq : other = sid
    · subst heq
      rw [setSA_self] at hvalid
      cases hvalid
    · have hne : (other : ℤ) ≠ sid := by omega
      rw [setSA_of_ne _ _ hne] at hvalid hother ⊢
      obtain ⟨hnonneg, hlt', howner, hkeys⟩ := hcoherent.owns other hlt hvalid hother
      exact ⟨hnonneg, hlt', howner, by rw [setSA_of_ne _ _ hne]; exact hkeys⟩
  · intro i hnonneg hlt howner
    obtain ⟨other, hother, hsid, hvalid, hcached⟩ := hcoherent.owner_open i hnonneg hlt howner
    have hne : (other : ℤ) ≠ sid := by
      intro heq
      rw [heq, hslot, mvInvalid] at hcached
      omega
    exact ⟨other, hother, hsid, by rwa [setSA_of_ne _ _ hne], by rwa [setSA_of_ne _ _ hne]⟩

/-- Closing a session that owns the slot `i`. -/
theorem KeyStore.Coherent.closeCached {ks : KeyStore} {sid : ℕ} {i : ℤ} (hcoherent : ks.Coherent)
    (howns : ks.Owns sid i) (hslot : (ks.sad sid).cacheIdx = i) :
    ((ks.clearSlot i).setSA sid { ks.sad sid with valid := false }).Coherent := by
  refine ⟨order_delete ⟨howns.slot_nonneg, howns.slot_lt⟩ hcoherent.order, ?_, ?_⟩
  · intro other hlt hvalid hother
    by_cases heq : other = sid
    · subst heq
      rw [setSA_self] at hvalid
      cases hvalid
    · have hne : (other : ℤ) ≠ sid := by omega
      rw [setSA_of_ne _ _ hne, clearSlot_sad] at hvalid hother ⊢
      have howns' := hcoherent.owns other hlt hvalid hother
      have happart : (ks.sad other).cacheIdx ≠ i := by
        intro hsame
        rw [hsame] at howns'
        exact heq (howns'.sid_unique howns)
      refine ⟨howns'.slot_nonneg, howns'.slot_lt, ?_, ?_⟩
      · rw [setSA_cacheSA, clearSlot_of_ne _ happart]
        exact howns'.owner
      · rw [setSA_cacheSA, clearSlot_of_ne _ happart, setSA_of_ne _ _ hne]
        exact howns'.keys
  · intro j hnonneg hlt howner
    rw [setSA_cacheSA] at howner ⊢
    have hji : j ≠ i := by
      rintro rfl
      exact howner (clearSlot_self ks j)
    rw [clearSlot_of_ne _ hji] at howner ⊢
    obtain ⟨other, hother, hsid, hvalid, hcached⟩ := hcoherent.owner_open j hnonneg hlt howner
    have hne : (other : ℤ) ≠ sid := by
      intro heq
      rw [heq, hslot] at hcached
      exact hji hcached.symm
    exact ⟨other, hother, hsid, by rwa [setSA_of_ne _ _ hne], by rwa [setSA_of_ne _ _ hne]⟩

/-- Closing a session keeps the cache coherent. -/
theorem mvCesaSessionClose_coherent {ks : KeyStore} {sid : ℕ} (hcoherent : ks.Coherent) :
    (mvCesaSessionClose sid ks).2.Coherent := by
  unfold mvCesaSessionClose
  split
  · exact hcoherent
  next hrange =>
    split
    · exact hcoherent
    next hvalid =>
      dsimp only
      split
      next hslot =>
        have howns := hcoherent.owns sid (by omega) (by simpa using hvalid) hslot
        exact hcoherent.closeCached howns rfl
      next hslot => exact hcoherent.closeUncached (by simpa using hslot)

/-- The store after loading a slot for an open session without one: the session has
the slot to be replaced, which holds its key material; the former owner of the
slot has none, and the other sessions keep theirs. -/
theorem loadSlot_slots {ks : KeyStore} {sid : ℕ} (hcoherent : ks.Coherent)
    (hslot : (ks.sad sid).cacheIdx = mvInvalid) :
    ((loadSlot sid ks).sad sid).cacheIdx = ks.lru.least ∧
      (loadSlot sid ks).cacheSA = Function.update ks.cacheSA ks.lru.least
        { keys := (ks.sad sid).cacheSA.keys, sid := sid } ∧
      ∀ other : ℕ, other ≠ sid → ((loadSlot sid ks).sad other).cacheIdx =
        if (ks.cacheSA ks.lru.least).sid = other then mvInvalid
        else (ks.sad other).cacheIdx := by
  obtain ⟨hnonneg, hlt⟩ := hcoherent.least_range
  by_cases howner : (ks.cacheSA ks.lru.least).sid = mvInvalid
  · have hload : loadSlot sid ks = { ks with
        sad := Function.update ks.sad sid { ks.sad sid with
          cacheIdx := ks.lru.least
          cacheSA := { (ks.sad sid).cacheSA with sid := sid } }
        cacheSA := Function.update ks.cacheSA ks.lru.least
          { keys := (ks.sad sid).cacheSA.keys, sid := sid } } := by
      simp [loadSlot, mvCesaCacheIdxFind, howner, KeyStore.setSA]
    rw [hload]
    refine ⟨by simp, rfl, ?_⟩
    intro other hne
    have hne' : (other : ℤ) ≠ sid := by omega
    have hnone : (ks.cacheSA ks.lru.least).sid ≠ other := by
      rw [howner, mvInvalid]
      omega
    simp [Function.update_of_ne hne', hnone]
  · obtain ⟨old, hold, hsid, -, hcached⟩ := hcoherent.owner_open _ hnonneg hlt howner
    have hne : old ≠ sid := by
      rintro rfl
      rw [hslot, mvInvalid] at hcached
      omega
    have hne' : (old : ℤ) ≠ sid := by omega
    have hnone : (old : ℤ) ≠ mvInvalid := by
      rw [mvInvalid]
      omega
    have hload : loadSlot sid ks = { ks with
        sad := Function.update (Function.update ks.sad old
          { ks.sad old with cacheIdx := mvInvalid }) sid { ks.sad sid with
            cacheIdx := ks.lru.least
            cacheSA := { (ks.sad sid).cacheSA with sid := sid } }
        cacheSA := Function.update ks.cacheSA ks.lru.least
          { keys := (ks.sad sid).cacheSA.keys, sid := sid } } := by
      simp only [loadSlot, mvCesaCacheIdxFind, KeyStore.setSA, hsid, hnone, if_true, ne_eq,
        not_false_eq_true, Function.update_of_ne hne', Function.update_self,
        Function.update_of_ne hne'.symm, Function.update_comm hne', Function.update_idem]
    rw [hload]
    refine ⟨by simp, rfl, ?_⟩
    intro other hother
    have hother' : (other : ℤ) ≠ sid := by omega
    by_cases heq : other = old
    · subst heq
      simp [Function.update_of_ne hother', hsid]
    · have hold' : (other : ℤ) ≠ old := by omega
      have hnone : (old : ℤ) ≠ other := by omega
      simp [Function.update_of_ne hother', Function.update_of_ne hold', hsid, Ne.symm heq]

/-- Loading a slot for an open session without one keeps the cache coherent. -/
theorem KeyStore.Coherent.load {ks : KeyStore} {sid : ℕ} (hcoherent : ks.Coherent)
    (hrange : sid < ks.maxSA) (hvalid : (ks.sad sid).valid = true)
    (hslot : (ks.sad sid).cacheIdx = mvInvalid) : (loadSlot sid ks).Coherent := by
  obtain ⟨hnew, hsram, hothers⟩ := loadSlot_slots hcoherent hslot
  obtain ⟨hnonneg, hlt⟩ := hcoherent.least_range
  have hassoc := fun other : ℕ => association_valid (loadSlot_association ks sid other)
  have hmax : (loadSlot sid ks).maxSA = ks.maxSA := by
    unfold loadSlot
    dsimp only
    split <;> rfl
  have hlru : (loadSlot sid ks).lru = ks.lru := by
    unfold loadSlot
    dsimp only
    split <;> rfl
  refine ⟨by rw [hlru]; exact hcoherent.order, ?_, ?_⟩
  · intro other hother hvalid' hcached
    by_cases heq : other = sid
    · subst heq
      rw [hnew]
      refine ⟨hnonneg, hlt, by simp [hsram], ?_⟩
      rw [(hassoc other).2, hsram, Function.update_self]
    · rw [hothers other heq] at hcached ⊢
      split at hcached
      · exact absurd rfl hcached
      next hstays =>
        rw [if_neg hstays]
        have howns := hcoherent.owns other (hmax ▸ hother) ((hassoc other).1 ▸ hvalid') hcached
        have happart : (ks.sad other).cacheIdx ≠ ks.lru.least := by
          intro hsame
          exact hstays (hsame ▸ howns.owner)
        refine ⟨howns.slot_nonneg, howns.slot_lt, ?_, ?_⟩
        · rw [hsram, Function.update_of_ne happart]
          exact howns.owner
        · rw [hsram, Function.update_of_ne happart, (hassoc other).2]
          exact howns.keys
  · intro j hj hj' howner
    by_cases hleast : j = ks.lru.least
    · subst hleast
      exact ⟨sid, by rwa [hmax], by simp [hsram], by rw [(hassoc sid).1]; exact hvalid, hnew⟩
    · rw [hsram, Function.update_of_ne hleast] at howner ⊢
      obtain ⟨other, hother, hsid, hvalid', hcached⟩ := hcoherent.owner_open j hj hj' howner
      have hne : other ≠ sid := by
        rintro rfl
        rw [hslot, mvInvalid] at hcached
        omega
      have hstays : (ks.cacheSA ks.lru.least).sid ≠ other := by
        intro hsame
        have hvictim : (ks.cacheSA ks.lru.least).sid ≠ mvInvalid := by
          rw [hsame, mvInvalid]
          omega
        obtain ⟨old, -, hold, -, holdslot⟩ := hcoherent.owner_open _ hnonneg hlt hvictim
        obtain rfl : old = other := by omega
        exact hleast (hcached.symm.trans holdslot)
      refine ⟨other, by rwa [hmax], hsid, by rw [(hassoc other).1]; exact hvalid', ?_⟩
      rw [hothers other hne, if_neg hstays]
      exact hcached

/-- Ownership does not depend on the replacement order. -/
theorem KeyStore.Owns.withLru {ks : KeyStore} {sid : ℕ} {i : ℤ} (howns : ks.Owns sid i)
    (lru : LruCache) : ({ ks with lru } : KeyStore).Owns sid i :=
  ⟨howns.slot_nonneg, howns.slot_lt, howns.owner, howns.keys⟩

/-- Using a slot keeps the cache coherent. -/
theorem KeyStore.Coherent.useSlot {ks : KeyStore} {i : ℤ} (hcoherent : ks.Coherent)
    (hi : 0 ≤ i ∧ i < maxCacheSA) :
    ({ ks with lru := mvCesaCacheIdxUpdate ks.lru i } : KeyStore).Coherent := by
  refine ⟨order_update hi hcoherent.order, ?_, hcoherent.owner_open⟩
  intro sid hrange hvalid hslot
  exact (hcoherent.owns sid hrange hvalid hslot).withLru _

/-- Starting a request of an open session keeps the cache coherent, and the slot
of its descriptor is its own. -/
theorem mvCesaCacheSramUpdate_coherent {ks : KeyStore} {sid : ℕ} (hcoherent : ks.Coherent)
    (hrange : sid < ks.maxSA) (hvalid : (ks.sad sid).valid = true) :
    ((mvCesaCacheSramUpdate sid ks).2).Coherent ∧
      ((mvCesaCacheSramUpdate sid ks).2).Owns sid
        (((mvCesaCacheSramUpdate sid ks).2).sad sid).cacheIdx := by
  unfold mvCesaCacheSramUpdate
  dsimp only
  by_cases hslot : (ks.sad sid).cacheIdx = mvInvalid
  · rw [if_pos hslot]
    obtain ⟨hnew, hsram, -⟩ := loadSlot_slots hcoherent hslot
    have hleast := hcoherent.least_range
    have hkeys := (association_valid (loadSlot_association ks sid sid)).2
    rw [hnew]
    refine ⟨(hcoherent.load hrange hvalid hslot).useSlot hleast, hleast.1, hleast.2, ?_, ?_⟩
    · simp [hsram]
    · rw [hkeys, hsram, Function.update_self]
  · rw [if_neg hslot]
    have howns := hcoherent.owns sid hrange hvalid hslot
    exact ⟨hcoherent.useSlot ⟨howns.slot_nonneg, howns.slot_lt⟩, howns.withLru _⟩

/-- Every step that meets the condition keeps the cache coherent. -/
theorem keyStep_coherent {env : OpenEnv} {ks ks' : KeyStore} {e : KeyEvent} {o : KeyAnswer}
    (hcoherent : ks.Coherent) (hopen : StartsOpen ks e) (hstep : keyStep env ks e = some (o, ks')) :
    ks'.Coherent := by
  cases e with
  | sessionOpen session =>
    obtain ⟨-, rfl⟩ := Prod.mk.inj (Option.some.inj hstep)
    exact mvCesaSessionOpen_coherent env session hcoherent
  | sessionClose sid =>
    obtain ⟨-, rfl⟩ := Prod.mk.inj (Option.some.inj hstep)
    exact mvCesaSessionClose_coherent hcoherent
  | start sid =>
    simp only [keyStep] at hstep
    split at hstep
    next hrange =>
      obtain ⟨-, rfl⟩ := Prod.mk.inj (Option.some.inj hstep)
      exact (mvCesaCacheSramUpdate_coherent hcoherent hrange hopen).1
    next => cases hstep

/-- Along every run that starts requests only for open sessions, the key cache is
coherent. -/
theorem keyRun_coherent {env : OpenEnv} {numOfSession : ℕ} {trace : List (KeyEvent × KeyAnswer)}
    {ks : KeyStore} (hrun : Run (keyStep env) StartsOpen (keyStoreInit numOfSession) trace ks) :
    ks.Coherent := by
  refine Run.invariant (I := fun _ ks => ks.Coherent) (keyStoreInit_coherent numOfSession) ?_ hrun
  intro _ ks e o ks' hcoherent hopen hstep
  exact keyStep_coherent hcoherent hopen hstep

/-- Coherence of the session database and the key cache. Along every run that
starts requests only for open sessions, no two open sessions have the same slot,
an open session with a slot owns it and the slot holds its key material, and the
descriptor of the next request of an open session is built against a slot that
holds the session's key material. -/
theorem keyRun_slots {env : OpenEnv} {numOfSession : ℕ} {trace : List (KeyEvent × KeyAnswer)}
    {ks : KeyStore} (hrun : Run (keyStep env) StartsOpen (keyStoreInit numOfSession) trace ks) :
    (∀ sid other : ℕ, sid < ks.maxSA → other < ks.maxSA → (ks.sad sid).valid = true →
        (ks.sad other).valid = true → (ks.sad sid).cacheIdx ≠ mvInvalid →
        (ks.sad sid).cacheIdx = (ks.sad other).cacheIdx → sid = other) ∧
      (∀ sid : ℕ, sid < ks.maxSA → (ks.sad sid).valid = true →
        (ks.sad sid).cacheIdx ≠ mvInvalid →
        (ks.cacheSA (ks.sad sid).cacheIdx).sid = sid ∧
          (ks.cacheSA (ks.sad sid).cacheIdx).keys = (ks.sad sid).cacheSA.keys) ∧
      ∀ (sid : ℕ) (i : ℤ) (ks' : KeyStore), StartsOpen ks (.start sid) →
        keyStep env ks (.start sid) = some (.started i, ks') →
        0 ≤ i ∧ i < maxCacheSA ∧ (ks'.cacheSA i).keys = (ks.sad sid).cacheSA.keys := by
  have hcoherent := keyRun_coherent hrun
  refine ⟨?_, ?_, ?_⟩
  · intro sid other hsid hother hvalid hvalid' hslot hsame
    have howns := hcoherent.owns sid hsid hvalid hslot
    have howns' := hcoherent.owns other hother hvalid' (hsame ▸ hslot)
    rw [← hsame] at howns'
    exact howns.sid_unique howns'
  · intro sid hsid hvalid hslot
    have howns := hcoherent.owns sid hsid hvalid hslot
    exact ⟨howns.owner, howns.keys⟩
  · intro sid i ks' hopen hstep
    simp only [keyStep] at hstep
    split at hstep
    next hrange =>
      simp only [Option.some.injEq, Prod.mk.injEq, KeyAnswer.started.injEq] at hstep
      obtain ⟨rfl, rfl⟩ := hstep
      obtain ⟨-, howns⟩ := mvCesaCacheSramUpdate_coherent hcoherent hrange hopen
      have hkeys := (association_valid (mvCesaCacheSramUpdate_association ks sid sid)).2
      exact ⟨howns.slot_nonneg, howns.slot_lt, howns.keys.trans hkeys⟩
    next => cases hstep

/-- A DES session in ECB mode with a key of eight equal bytes. -/
def desSession (byte : UInt8) : OpenSession :=
  { cryptoKey := List.replicate 8 byte
    macKey := []
    operation := cryptoOnly
    direction := dirEncode
    cryptoAlgorithm := cryptoDes
    cryptoMode := cryptoEcb
    cryptoKeyLength := 8
    macMode := 0
    macKeyLength := 0
    digestSize := 0 }

/-- An environment for sessions that need neither a hash nor an AES decoding key. -/
def plainEnv : OpenEnv :=
  { aesMakeKey := fun key _ => key
    garbage := [] }

/-- Coherence on a run that opens two sessions, starts a request of each and closes
the first. -/
theorem keyRun_slots_two_sessions :
    ∃ trace ks, Run (keyStep plainEnv) StartsOpen (keyStoreInit 4) trace ks ∧
      trace.length = 5 ∧ (ks.sad 1).valid = true ∧ (ks.sad 1).cacheIdx = 1 ∧
      (ks.cacheSA 1).keys = (ks.sad 1).cacheSA.keys := by
  have hrun : Run (keyStep plainEnv) StartsOpen (keyStoreInit 4) _ _ :=
    Run.of_exec [.sessionOpen (desSession 1), .sessionOpen (desSession 2), .start 0, .start 1,
      .sessionClose 0] rfl
  have hslots := (keyRun_slots hrun).2.1 1 (by decide) rfl (by decide)
  exact ⟨_, _, hrun, rfl, rfl, rfl, hslots.2⟩

/-- A request of a closed session is started against the slot of another session:
the slot number that stays in the entry of session 0 is given to session 1 before
the request of session 0 is started. -/
theorem keyRun_closed_session_slot :
    ∃ trace ks, Run (keyStep plainEnv) (fun _ _ => True) (keyStoreInit 4) trace ks ∧
      ∃ i ks', keyStep plainEnv ks (.start 0) = some (.started i, ks') ∧
        (ks'.cacheSA i).keys ≠ (ks.sad 0).cacheSA.keys ∧
        (ks'.cacheSA i).keys = (ks.sad 1).cacheSA.keys := by
  have hrun : Run (keyStep plainEnv) (fun _ _ => True) (keyStoreInit 4) _ _ :=
    Run.of_exec [.sessionOpen (desSession 1), .sessionOpen (desSession 2), .start 0,
      .sessionClose 0, .start 1] rfl
  refine ⟨_, _, hrun, _, _, rfl, ?_, ?_⟩
  · decide
  · decide

end Mv88fxx81.Cesa
