import SyzAbi.Library.Interleaving

/-!
# The cache of packaged docker bundles

`ensure_packaged_docker_bundle` (`targets/asterinas/cache_support.py`) builds the kernel bundle of a
package directory unless the one that is there was built for the same metadata. Three files record
a build: the bundle, its metadata, and a stamp. A call that builds removes the stamp first and then
the metadata, and writes them in the opposite order when the build has succeeded.

Calls hold the lock of the directory, so they come one after the other; each can raise or be killed
behind any step. A killed call leaves its container running, which goes on writing the bundle until
a later call removes it. Whenever the stamp is there, no container runs and the bundle was built
from what the metadata says (`trustworthy_of_mem_states`).
-/

set_option autoImplicit false
set_option relaxedAutoImplicit false

namespace SyzAbi.Targets

open Library.Interleaving

variable {Bytes Digest : Type}

/-! ### Builds -/

/-- What a build reads. -/
structure BuildInputs (Bytes : Type) where
  dockerImage : String
  initramfs : Bytes
  kcmdArgs : String
  revision : String

/-- `packaged_bundle_metadata`. -/
structure BundleMetadata (Digest : Type) where
  dockerImage : String
  initramfsSha256 : Digest
  kcmdArgs : String
  revision : String
  deriving DecidableEq

/-- The metadata of some inputs, for a digest function. -/
def packagedBundleMetadata (sha256 : Bytes → Digest) (inputs : BuildInputs Bytes) :
    BundleMetadata Digest where
  dockerImage := inputs.dockerImage
  initramfsSha256 := sha256 inputs.initramfs
  kcmdArgs := inputs.kcmdArgs
  revision := inputs.revision

/-- A bundle directory with its `bundle.toml`: what it was built from, and whether the build wrote
all of it. -/
structure Bundle (Bytes : Type) where
  inputs : BuildInputs Bytes
  complete : Bool

/-- What a call does next. -/
inductive BundlePhase
  /-- It checks the stamp, the bundle and the metadata. -/
  | checking
  | unstamping
  | forgetting
  /-- The caches are filled. -/
  | priming
  /-- A container that an earlier call left is removed. -/
  | clearing
  | starting
  | building
  /-- `docker run` has returned. -/
  | exited (succeeded : Bool)
  | logging (succeeded : Bool)
  | recording
  | stamping

/-- The package directory, the container with its name, and the call that holds the lock. A metadata
file that is no JSON document counts as none, for it matches nothing. -/
structure BundleCache (Bytes Digest : Type) where
  stamp : Bool
  metadata : Option (BundleMetadata Digest)
  bundle : Option (Bundle Bytes)
  container : Option (BuildInputs Bytes)
  call : Option (BundlePhase × BuildInputs Bytes)

/-- What happens next. -/
inductive BundleMove (Bytes : Type)
  /-- A call takes the lock. -/
  | lock (inputs : BuildInputs Bytes)
  /-- The call takes its next step. -/
  | advance
  /-- The container changes the bundle: it removes it, or writes some or all of it. -/
  | write (progress : Option Bool)
  /-- The build command ends. -/
  | exit (succeeded : Bool)
  | raise
  | kill

variable [DecidableEq Digest] (sha256 : Bytes → Digest)

/-- The next step of a call. -/
def advanceCall (cache : BundleCache Bytes Digest) (inputs : BuildInputs Bytes) :
    BundlePhase → BundleCache Bytes Digest
  | .checking =>
    if cache.stamp && cache.bundle.isSome &&
        cache.metadata = some (packagedBundleMetadata sha256 inputs) then
      { cache with call := none }
    else { cache with call := some (.unstamping, inputs) }
  | .unstamping => { cache with stamp := false, call := some (.forgetting, inputs) }
  | .forgetting => { cache with metadata := none, call := some (.priming, inputs) }
  | .priming => { cache with call := some (.clearing, inputs) }
  | .clearing => { cache with container := none, call := some (.starting, inputs) }
  | .starting => { cache with container := some inputs, call := some (.building, inputs) }
  | .building => cache
  | .exited succeeded =>
    { cache with container := none, call := some (.logging succeeded, inputs) }
  | .logging succeeded =>
    { cache with call := if succeeded then some (.recording, inputs) else none }
  | .recording =>
    { cache with
      metadata := some (packagedBundleMetadata sha256 inputs), call := some (.stamping, inputs) }
  | .stamping => { cache with stamp := true, call := none }

/-- The end of the build command. A build that succeeds has written the bundle. -/
def exitBuild (cache : BundleCache Bytes Digest) (inputs : BuildInputs Bytes) (succeeded : Bool) :
    BundleCache Bytes Digest :=
  { cache with
    bundle := if succeeded then some ⟨inputs, true⟩ else cache.bundle
    container := none
    call := some (.exited succeeded, inputs) }

/-- One move. A move that is not possible does nothing. -/
def bundleStep (cache : BundleCache Bytes Digest) : BundleMove Bytes → BundleCache Bytes Digest
  | .lock inputs =>
    match cache.call with
    | none => { cache with call := some (.checking, inputs) }
    | some _ => cache
  | .advance =>
    match cache.call with
    | none => cache
    | some (phase, inputs) => advanceCall sha256 cache inputs phase
  | .write progress =>
    match cache.container with
    | none => cache
    | some inputs => { cache with bundle := progress.map fun complete ↦ ⟨inputs, complete⟩ }
  | .exit succeeded =>
    match cache.call with
    | some (.building, inputs) => exitBuild cache inputs succeeded
    | _ => cache
  | .raise =>
    match cache.call with
    -- The container is removed in `finally`.
    | some (.building, _) => { cache with container := none, call := none }
    | _ => { cache with call := none }
  | .kill => { cache with call := none }

/-- A package directory before its first build. -/
def emptyCache : BundleCache Bytes Digest where
  stamp := false
  metadata := none
  bundle := none
  container := none
  call := none

/-- When the stamp and the bundle are there and the metadata is the expected one, the bundle was
completely built from inputs with this metadata. -/
def Trustworthy (cache : BundleCache Bytes Digest) : Prop :=
  ∀ bundle expected, cache.stamp = true → cache.bundle = some bundle →
    cache.metadata = some expected →
      bundle.complete = true ∧ packagedBundleMetadata sha256 bundle.inputs = expected

/-! ### The invariant -/

/-- What holds at a step of a call. -/
def BundlePhase.Asserts (cache : BundleCache Bytes Digest) (inputs : BuildInputs Bytes) :
    BundlePhase → Prop
  | .checking | .unstamping => True
  | .forgetting | .priming | .clearing | .building => cache.stamp = false
  | .starting => cache.stamp = false ∧ cache.container = none
  | .exited succeeded | .logging succeeded =>
    cache.stamp = false ∧ cache.container = none ∧
      (succeeded = true → cache.bundle = some ⟨inputs, true⟩)
  | .recording =>
    cache.stamp = false ∧ cache.container = none ∧ cache.bundle = some ⟨inputs, true⟩
  | .stamping =>
    cache.stamp = false ∧ cache.container = none ∧ cache.bundle = some ⟨inputs, true⟩ ∧
      cache.metadata = some (packagedBundleMetadata sha256 inputs)

/-- The stamp vouches for the bundle, and the call that holds the lock keeps its order. -/
structure BundleCache.Sound (cache : BundleCache Bytes Digest) : Prop where
  stamped : cache.stamp = true → cache.container = none ∧ Trustworthy sha256 cache
  call : ∀ phase inputs, cache.call = some (phase, inputs) → phase.Asserts sha256 cache inputs

variable {sha256}

omit [DecidableEq Digest] in
theorem BundleCache.Sound.trustworthy {cache : BundleCache Bytes Digest}
    (hsound : cache.Sound sha256) : Trustworthy sha256 cache := by
  intro bundle expected hstamp
  exact (hsound.stamped hstamp).2 bundle expected hstamp

omit [DecidableEq Digest] in
/-- Without a stamp only the call makes an assertion. -/
theorem BundleCache.sound_of_not_stamped {cache : BundleCache Bytes Digest}
    (hstamp : cache.stamp = false)
    (hcall : ∀ phase inputs, cache.call = some (phase, inputs) →
      phase.Asserts sha256 cache inputs) : cache.Sound sha256 where
  stamped := by
    intro h
    rw [hstamp] at h
    cases h
  call := hcall

omit [DecidableEq Digest] in
/-- A call that ends leaves the files to the next one. -/
theorem BundleCache.Sound.endCall {cache : BundleCache Bytes Digest}
    (hsound : cache.Sound sha256) : { cache with call := none }.Sound sha256 where
  stamped := hsound.stamped
  call := by simp

omit [DecidableEq Digest] in
theorem sound_emptyCache : (emptyCache : BundleCache Bytes Digest).Sound sha256 :=
  BundleCache.sound_of_not_stamped rfl (by simp [emptyCache])

omit [DecidableEq Digest] in
/-- While a container runs there is no stamp. -/
theorem BundleCache.Sound.not_stamped {cache : BundleCache Bytes Digest}
    (hsound : cache.Sound sha256) {inputs : BuildInputs Bytes}
    (hcontainer : cache.container = some inputs) : cache.stamp = false := by
  rw [Bool.eq_false_iff]
  intro hstamp
  rw [(hsound.stamped hstamp).1] at hcontainer
  cases hcontainer

theorem BundleCache.Sound.advance {cache : BundleCache Bytes Digest}
    (hsound : cache.Sound sha256) {phase : BundlePhase} {inputs : BuildInputs Bytes}
    (hcall : cache.call = some (phase, inputs)) :
    (advanceCall sha256 cache inputs phase).Sound sha256 := by
  have hasserts := hsound.call phase inputs hcall
  cases phase with
  | checking =>
    rw [advanceCall]
    split_ifs
    · exact hsound.endCall
    · exact ⟨hsound.stamped, by simp [BundlePhase.Asserts]⟩
  | unstamping => exact sound_of_not_stamped rfl (by simp [advanceCall, BundlePhase.Asserts])
  | forgetting =>
    have hstamp : cache.stamp = false := hasserts
    exact sound_of_not_stamped hstamp (by simp [advanceCall, BundlePhase.Asserts, hstamp])
  | priming =>
    have hstamp : cache.stamp = false := hasserts
    exact sound_of_not_stamped hstamp (by simp [advanceCall, BundlePhase.Asserts, hstamp])
  | clearing =>
    have hstamp : cache.stamp = false := hasserts
    exact sound_of_not_stamped hstamp (by simp [advanceCall, BundlePhase.Asserts, hstamp])
  | starting =>
    have hstamp : cache.stamp = false := hasserts.1
    exact sound_of_not_stamped hstamp (by simp [advanceCall, BundlePhase.Asserts, hstamp])
  | building => exact hsound
  | exited succeeded =>
    obtain ⟨hstamp, _, hbundle⟩ := hasserts
    refine sound_of_not_stamped hstamp ?_
    rintro phase inputs ⟨⟩
    exact ⟨hstamp, rfl, hbundle⟩
  | logging succeeded =>
    obtain ⟨hstamp, hcontainer, hbundle⟩ := hasserts
    refine sound_of_not_stamped hstamp ?_
    cases succeeded with
    | false => simp [advanceCall]
    | true =>
      rintro phase inputs ⟨⟩
      exact ⟨hstamp, hcontainer, hbundle rfl⟩
  | recording =>
    obtain ⟨hstamp, hcontainer, hbundle⟩ := hasserts
    refine sound_of_not_stamped hstamp ?_
    rintro phase inputs ⟨⟩
    exact ⟨hstamp, hcontainer, hbundle, rfl⟩
  | stamping =>
    obtain ⟨_, hcontainer, hbundle, hmetadata⟩ := hasserts
    refine ⟨fun _ ↦ ⟨hcontainer, ?_⟩, by simp [advanceCall]⟩
    intro bundle expected _ hfound hstored
    obtain rfl : (⟨inputs, true⟩ : Bundle Bytes) = bundle :=
      Option.some.inj (hbundle.symm.trans hfound)
    exact ⟨rfl, Option.some.inj (hmetadata.symm.trans hstored)⟩

omit [DecidableEq Digest] in
/-- The container writes only where there is no stamp. -/
theorem BundleCache.Sound.write {cache : BundleCache Bytes Digest} (hsound : cache.Sound sha256)
    {source : BuildInputs Bytes} (hcontainer : cache.container = some source)
    (bundle : Option (Bundle Bytes)) : { cache with bundle := bundle }.Sound sha256 := by
  refine sound_of_not_stamped (hsound.not_stamped hcontainer) fun phase inputs hcall ↦ ?_
  have hasserts := hsound.call phase inputs hcall
  have hbusy : cache.container ≠ none := by
    rw [hcontainer]
    simp
  cases phase with
  | exited | logging | recording | stamping => exact absurd hasserts.2.1 hbusy
  | _ => exact hasserts

/-- Every move, also a failure or a kill behind any step, keeps the cache sound. -/
theorem BundleCache.Sound.step {cache : BundleCache Bytes Digest} (hsound : cache.Sound sha256)
    (move : BundleMove Bytes) : (bundleStep sha256 cache move).Sound sha256 := by
  cases move with
  | lock inputs =>
    rw [bundleStep]
    split
    · exact ⟨hsound.stamped, by simp [BundlePhase.Asserts]⟩
    · exact hsound
  | advance =>
    rw [bundleStep]
    split
    · exact hsound
    · next phase inputs hcall => exact hsound.advance hcall
  | write progress =>
    rw [bundleStep]
    split
    · exact hsound
    · next inputs hcontainer => exact hsound.write hcontainer _
  | exit succeeded =>
    rw [bundleStep]
    split
    · next inputs hcall =>
      have hstamp : cache.stamp = false := hsound.call _ _ hcall
      refine sound_of_not_stamped hstamp ?_
      rintro phase inputs ⟨⟩
      exact ⟨hstamp, rfl, fun hsucceeded ↦ if_pos hsucceeded⟩
    · exact hsound
  | raise =>
    rw [bundleStep]
    split
    · next inputs hcall =>
      have hstamp : cache.stamp = false := hsound.call _ _ hcall
      exact sound_of_not_stamped hstamp (by simp)
    · exact hsound.endCall
  | kill => exact hsound.endCall

/-! ### Runs -/

/-- In every state that locked calls reach, whatever they build and wherever they fail or are
killed, a stamp, a bundle and matching metadata mean that the bundle was completely built from
inputs with this metadata. -/
theorem trustworthy_of_mem_states (sha256 : Bytes → Digest) (moves : List (BundleMove Bytes)) :
    ∀ cache ∈ states (bundleStep sha256) emptyCache moves, Trustworthy sha256 cache := by
  have hsound : ∀ cache ∈ states (bundleStep sha256) emptyCache moves, cache.Sound sha256 :=
    forall_states (fun cache move (h : cache.Sound sha256) ↦ h.step move) sound_emptyCache moves
  exact fun cache hcache ↦ (hsound cache hcache).trustworthy

/-- A call that nothing interrupts. -/
def quietCall : List (BundleMove ℕ) :=
  [.lock ⟨"image", 7, "console=hvc0", "0123"⟩, .advance, .advance, .advance, .advance, .advance,
    .advance, .write (some false), .exit true, .advance, .advance, .advance, .advance]

/-- It leaves a stamped bundle, which is the one that its metadata describes. -/
theorem trustworthy_of_mem_states_quietCall :
    (quietCall.foldl (bundleStep id) emptyCache).stamp = true ∧
      (quietCall.foldl (bundleStep id) emptyCache).bundle.map Bundle.complete = some true ∧
      Trustworthy id (quietCall.foldl (bundleStep id) emptyCache) :=
  ⟨by decide, by decide, trustworthy_of_mem_states id quietCall _ (foldl_mem_states _ _)⟩

end SyzAbi.Targets
