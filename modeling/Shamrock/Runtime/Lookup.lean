import Shamrock.Runtime.ProgramState

/-!
# Entries of devices

A program and its kernels have one entry for each device they were made for. A device selects the
first entry whose device it is a part of, and that is its own where no device of the list is a part
of an earlier one.
-/
namespace Shamrock.Runtime

/-- `Kernel::DeviceDependent` -/
structure KernelDependent (M : Type) where
  device : DeviceId
  function : String
  module : M

namespace Kernel

variable {M : Type}

/-- Here the device may be null, which selects a single entry. -/
def deviceDependent (deps : List (KernelDependent M)) : Option DeviceId → Option Nat
  | none => if deps.length = 1 then some 0 else none
  | some device => deps.findIdx? fun dep => matchDeviceOrParent dep.device device

/-- The entries of a kernel that `createKernel` has made, by name, for all entries of the program.
`addFunction` tells whether the signature is that of the other devices. -/
def entries (tc : Toolchain M) (name : String) (addFunction : Nat → Bool) :
    Nat → List (Dependent M) → Option (List (KernelDependent M))
  | _, [] => some []
  | i, dep :: deps =>
    match dep.linkedModule with
    | none => none
    | some m =>
      if name ∈ Program.kernelFunctions tc m ∧ addFunction i = true then
        (entries tc name addFunction (i + 1) deps).map fun ks =>
          { device := dep.device, function := name, module := m } :: ks
      else none

end Kernel

/-- The device itself or the nearest one above it that is listed. -/
def nearestListed (devices : List DeviceId) : DeviceId → Option DeviceId
  | .root n => if .root n ∈ devices then some (.root n) else none
  | .sub parent n =>
    if .sub parent n ∈ devices then some (.sub parent n) else nearestListed devices parent

namespace Program

variable {M : Type}

/-- What the loops over the devices are for: each entry once, in the order of the list. -/
def visit {σ : Type}
    (body : Nat → DeviceId → Dependent M → σ → Except Fault (Dependent M × σ × Int)) :
    Nat → List (Dependent M) → σ → Except Fault (List (Dependent M) × σ × Int)
  | _, [], s => .ok ([], s, clSuccess)
  | i, dep :: deps, s =>
    match body i dep.device dep s with
    | .error f => .error f
    | .ok (dep, s, code) =>
      if code = clSuccess then
        (visit body (i + 1) deps s).map fun r => (dep :: r.1, r.2)
      else .ok (dep :: deps, s, code)

/-- Each device of the list has its own entry, the loops visit the entries one by one, any device
has the entry of the nearest one listed, and a kernel gives it the same. -/
structure ExactLookup (tc : Toolchain M) (deps : List (Dependent M)) : Prop where
  own : ∀ i d, (deps.map Dependent.device)[i]? = some d → deviceDependent deps d = some i
  loops : ∀ (σ : Type)
    (body : Nat → DeviceId → Dependent M → σ → Except Fault (Dependent M × σ × Int)),
    (∀ i d dep s dep' s' code, body i d dep s = .ok (dep', s', code) → dep'.device = dep.device) →
      ∀ s, forDevices (deps.map Dependent.device) body (List.range deps.length) deps s =
        visit body 0 deps s
  nearest : ∀ d, (deviceDependent deps d).bind (fun k => (deps.map Dependent.device)[k]?) =
    nearestListed (deps.map Dependent.device) d
  kernel : ∀ name addFunction ks, Kernel.entries tc name addFunction 0 deps = some ks →
    ∀ d, Kernel.deviceDependent ks (some d) = deviceDependent deps d ∧
      ks.map KernelDependent.device = deps.map Dependent.device

section Lookup

variable {tc : Toolchain M} {deps : List (Dependent M)} {devices : List DeviceId} {d d' : DeviceId}

theorem match_iff_of_root {n : Nat} :
    matchDeviceOrParent d (.root n) = true ↔ d = .root n := by
  simp [matchDeviceOrParent]

theorem nearestListed_mem (h : nearestListed devices d = some d') :
    d' ∈ devices ∧ matchDeviceOrParent d' d = true := by
  induction d with
  | root n =>
    simp only [nearestListed] at h
    split at h
    · rename_i hmem
      cases h
      exact ⟨hmem, match_self _⟩
    · cases h
  | sub parent n ih =>
    simp only [nearestListed] at h
    split at h
    · rename_i hmem
      cases h
      exact ⟨hmem, match_self _⟩
    · obtain ⟨hmem, hmatch⟩ := ih h
      exact ⟨hmem, by simp [matchDeviceOrParent, hmatch]⟩

/-- A listed device above `d` is above the nearest one, too. -/
theorem match_nearestListed (hmem : d' ∈ devices) (hmatch : matchDeviceOrParent d' d = true) :
    ∃ near, nearestListed devices d = some near ∧ matchDeviceOrParent d' near = true := by
  induction d with
  | root n =>
    obtain rfl := match_iff_of_root.mp hmatch
    exact ⟨.root n, by simp [nearestListed, hmem], match_self _⟩
  | sub parent n ih =>
    by_cases hlisted : DeviceId.sub parent n ∈ devices
    · exact ⟨.sub parent n, by simp [nearestListed, hlisted], hmatch⟩
    · rcases Bool.or_eq_true_iff.mp hmatch with heq | hparent
      · obtain rfl : d' = .sub parent n := by simpa using heq
        exact absurd hmem hlisted
      · obtain ⟨near, hnear, habove⟩ := ih hparent
        exact ⟨near, by simp [nearestListed, hlisted, hnear], habove⟩

theorem deviceDependent_nearest (hown : OwnEntries (deps.map Dependent.device)) (d : DeviceId) :
    (deviceDependent deps d).bind (fun k => (deps.map Dependent.device)[k]?) =
      nearestListed (deps.map Dependent.device) d := by
  cases hk : deviceDependent deps d with
  | none =>
    cases hnear : nearestListed (deps.map Dependent.device) d with
    | none => rfl
    | some near =>
      obtain ⟨hmem, hmatch⟩ := nearestListed_mem hnear
      obtain ⟨dep, hdep, rfl⟩ := List.mem_map.mp hmem
      exact absurd hmatch (by simpa using List.findIdx?_eq_none_iff.mp hk dep hdep)
  | some k =>
    obtain ⟨hlt, hmatch, hno⟩ := List.findIdx?_eq_some_iff_getElem.mp hk
    have hget : (deps.map Dependent.device)[k]? = some deps[k].device := by simp [hlt]
    obtain ⟨near, hnear, habove⟩ := match_nearestListed (List.mem_of_getElem? hget) hmatch
    rw [Option.bind_some, hget, hnear, Option.some.injEq]
    -- both are listed; neither comes behind the other
    obtain ⟨hmem, hnmatch⟩ := nearestListed_mem hnear
    obtain ⟨j, hj⟩ := List.getElem?_of_mem hmem
    obtain ⟨hjlt, hjeq⟩ := List.getElem?_eq_some_iff.mp hj
    rw [List.length_map] at hjlt
    rw [List.getElem_map] at hjeq
    rcases Nat.lt_trichotomy j k with hlt' | rfl | hgt
    · exact absurd (hjeq ▸ hnmatch) (hno j hlt')
    · exact hjeq
    · have hfalse := List.pairwise_iff_getElem.mp hown k j (by simpa using hlt)
        (by simpa using hjlt) hgt
      simp only [List.getElem_map, hjeq, habove] at hfalse
      exact absurd hfalse (by decide)

theorem kernel_entries_device {name : String} {addFunction : Nat → Bool} {i : Nat}
    {ks : List (KernelDependent M)} (h : Kernel.entries tc name addFunction i deps = some ks) :
    ks.map KernelDependent.device = deps.map Dependent.device := by
  induction deps generalizing i ks with
  | nil =>
    cases h
    rfl
  | cons dep deps ih =>
    simp only [Kernel.entries] at h
    split at h
    · cases h
    · split at h
      · obtain ⟨ks', hks, rfl⟩ := Option.map_eq_some_iff.mp h
        simp [ih hks]
      · cases h

/-- The entries of a kernel are in the order of those of its program. -/
theorem kernel_deviceDependent {ks : List (KernelDependent M)}
    (h : ks.map KernelDependent.device = deps.map Dependent.device) (d : DeviceId) :
    Kernel.deviceDependent ks (some d) = deviceDependent deps d := by
  have hks : Kernel.deviceDependent ks (some d) =
      (ks.map KernelDependent.device).findIdx? fun d' => matchDeviceOrParent d' d := by
    rw [List.findIdx?_map]
    rfl
  rw [hks, h, List.findIdx?_map]
  rfl

variable {σ : Type} {s : σ}
  {body : Nat → DeviceId → Dependent M → σ → Except Fault (Dependent M × σ × Int)}

theorem forDevices_visit (done rest : List (Dependent M))
    (hown : OwnEntries ((done ++ rest).map Dependent.device))
    (hdev : (done ++ rest).map Dependent.device = devices)
    (hbody : ∀ i d dep s dep' s' code, body i d dep s = .ok (dep', s', code) →
      dep'.device = dep.device) :
    forDevices devices body (List.range' done.length rest.length) (done ++ rest) s =
      (visit body done.length rest s).map fun r => (done ++ r.1, r.2) := by
  induction rest generalizing done s with
  | nil => rfl
  | cons dep rest ih =>
    have hi : (done ++ dep :: rest)[done.length]? = some dep := by simp
    rw [List.length_cons, List.range'_succ, forDevices_own_cons hown hdev hi]
    simp only [visit]
    cases hrun : body done.length dep.device dep s with
    | error f => rfl
    | ok r =>
      obtain ⟨dep', s', code⟩ := r
      have hset : (done ++ dep :: rest).set done.length dep' = (done ++ [dep']) ++ rest := by simp
      have hmap := device_set hi (hbody _ _ _ _ _ _ _ hrun)
      rw [hset] at hmap
      have hlen : (done ++ [dep']).length = done.length + 1 := by simp
      have hnext := ih (done ++ [dep']) (s := s') (by rwa [hmap]) (hmap.trans hdev)
      rw [hlen] at hnext
      by_cases hc : code = clSuccess
      · simp only [hc, if_true, hset, hnext]
        cases visit body (done.length + 1) rest s' <;> simp [Except.map]
      · simp [hc, Except.map]

/-- The lookup is exact if and only if no device of the list comes behind one it is a part of. -/
theorem exactLookup_iff (tc : Toolchain M) (deps : List (Dependent M)) :
    ExactLookup tc deps ↔ OwnEntries (deps.map Dependent.device) := by
  constructor
  · exact fun h => ownEntries_iff.mpr h.own
  · intro hown
    refine ⟨ownEntries_iff.mp hown, ?_, deviceDependent_nearest hown, ?_⟩
    · intro σ body hbody s
      have hloop := forDevices_visit [] deps (s := s) hown rfl hbody
      rw [List.length_nil, ← List.range_eq_range', List.nil_append] at hloop
      rw [hloop]
      cases visit body 0 deps s <;> rfl
    · intro name addFunction ks hks d
      have hdevice := kernel_entries_device hks
      exact ⟨kernel_deviceDependent hdevice d, hdevice⟩

/-- A sub-device behind its parent selects the entry of the parent. -/
theorem sub_device_shadowed : ¬ ∀ (M : Type) (tc : Toolchain M) (deps : List (Dependent M)),
    (deps.map Dependent.device).Nodup → ExactLookup tc deps := by
  intro h
  have hown := (h Bool addToolchain
    ((Program.new.setDevices [.root 0, .sub (.root 0) 0]).deviceDependents) (by decide)).own 1 _ rfl
  exact absurd hown (by decide)

end Lookup

end Program

end Shamrock.Runtime
