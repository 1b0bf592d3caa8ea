import ArachKernel.Syscalls.Dispatch

/-!
Who owns the installed images. The image of the first process is never given up; that of a
service belongs to the registry, then to the system call that takes it, and at last to the
runtime, which reaps it. Two owners never own one image, and the live tasks are at home in
the images of the first process and of the registry: so an image that waits to be reaped is
nobody's home.
-/

namespace ArachKernel.Syscalls

open Process Process.Lifecycle Table ProcessRuntime ServiceImageRegistry

/-! ### Owners -/

inductive Owner
  | init
  | service (c : ServiceIndex)
  | pending
  | held
  deriving DecidableEq

/-- What a system call is about: nothing, a process that has ended and whose image is still
in the registry, an image in its hands, or the old image of a process that gets a new one. -/
inductive Flight
  | nothing
  | leaving (handle : ProcessHandle)
  | taken (image : ProcessImageHandle)
  | moving (handle : ProcessHandle) (image : ProcessImageHandle)

def Flight.held : Flight → Option ProcessImageHandle
  | .taken image | .moving _ image => some image
  | .nothing | .leaving _ => none

/-- Where a registered process lives: in the image of its class, but for one that moves. -/
def Flight.homeOf (f : Flight) (handle : ProcessHandle) (image : ProcessImageHandle) :
    ProcessImageHandle :=
  match f with
  | .moving caller old => if handle = caller then old else image
  | _ => image

def Machine.owns (m : Machine) (init : ProcessImageHandle) (f : Flight) :
    Owner → Option ProcessImageHandle
  | .init => some init
  | .service c => m.registry.images c
  | .pending => m.runtime.pendingReap
  | .held => f.held

/-- Owners own installed images, and each its own. -/
structure Owned (r : ProcessRuntime) (owns : Owner → Option ProcessImageHandle) : Prop where
  holds : ∀ o image, owns o = some image → r.holds image
  apart : ∀ o o' image image', owns o = some image → owns o' = some image' →
    image.slot = image'.slot → o = o'

variable {r : ProcessRuntime}

/-- Two owners may exchange what they own, or one may give it to the other. -/
theorem Owned.swap {r' : ProcessRuntime} {owns owns' : Owner → Option ProcessImageHandle}
    (h : Owned r owns) (a b : Owner)
    (howns : ∀ o image, owns' o = some image → owns (Equiv.swap a b o) = some image)
    (hholds : ∀ o image, owns' o = some image → r.holds image → r'.holds image) :
    Owned r' owns' where
  holds o image ho := hholds o image ho (h.holds _ _ (howns o image ho))
  apart o o' image image' ho ho' hslot :=
    (Equiv.swap a b).injective (h.apart _ _ _ _ (howns o image ho) (howns o' image' ho') hslot)

/-- The task lives in the image of the first process, in that of the service that its
leader is, or in the old image of a process that moves. -/
inductive Home (m : Machine) (init : ProcessImageHandle) (f : Flight) (slot : ProcessSlot) : Prop
  | init (hroot : slot.launch.addressSpaceRoot = m.runtime.rootOf init)
  | service {c : ServiceIndex} {image : ProcessImageHandle} {j : TaskIndex}
      (himage : m.registry.images c = some image)
      (hroot : slot.launch.addressSpaceRoot = m.runtime.rootOf image)
      (hleads : (m.table.slots j).leads slot.threadGroup)
      (hhandle : m.registry.handles c = some (m.table.slots j).handle)
  | moving {image : ProcessImageHandle} (hf : f = .moving slot.handle image)
      (hroot : slot.launch.addressSpaceRoot = m.runtime.rootOf image)

/-- The process that a service class is registered to: it leads a group, has not ended, and
lives in the image of its class, but for what a system call is about. -/
structure Registered (m : Machine) (f : Flight) (c : ServiceIndex)
    (handle : ProcessHandle) (i : TaskIndex) (image : ProcessImageHandle) : Prop where
  holds : (m.table.slots i).holds handle
  leads : (m.table.slots i).pid = (m.table.slots i).threadGroup
  serviceClass : ServiceImageRegistry.index (m.table.slots i).launch.serviceClass = some c
  phase : (m.table.slots i).phase ≠ .zombie ∨ f = .leaving handle
  installed : m.registry.images c = some image
  root : (m.table.slots i).launch.addressSpaceRoot = m.runtime.rootOf (f.homeOf handle image)

variable {image : ProcessImageHandle}

section Registered

variable {m m' : Machine} {f f' : Flight} {c : ServiceIndex} {handle : ProcessHandle}
  {i : TaskIndex} {image' : ProcessImageHandle}

/-- The process goes on, perhaps with a new image. -/
theorem Registered.of_kept (h : Registered m f c handle i image)
    (hkept : Kept (m.table.slots i) (m'.table.slots i))
    (hclass : (m'.table.slots i).launch.serviceClass = (m.table.slots i).launch.serviceClass)
    (hph : (m'.table.slots i).phase ≠ .zombie ∨ f' = .leaving handle)
    (himg : m'.registry.images c = some image')
    (hroot : (m'.table.slots i).launch.addressSpaceRoot =
      m'.runtime.rootOf (f'.homeOf handle image')) : Registered m' f' c handle i image' where
  holds := by
    obtain ⟨hocc, heq⟩ := handle_of_holds h.holds
    have hhd := hkept.handle.trans heq
    rw [ProcessSlot.holds, hkept.occupied, hocc, ← hhd]
    simp [ProcessSlot.handle]
  leads := by
    rw [hkept.threadGroup, ← h.leads]
    exact congrArg (·.pid) hkept.handle
  serviceClass := hclass ▸ h.serviceClass
  phase := hph
  installed := himg
  root := hroot

/-- The slot of the process stays what it is. -/
theorem Registered.of_slot (h : Registered m f c handle i image) (hf : f ≠ .leaving handle)
    (hslot : m'.table.slots i = m.table.slots i) (himg : m'.registry.images c = some image')
    (hroot : m'.runtime.rootOf (f'.homeOf handle image') =
      m.runtime.rootOf (f.homeOf handle image)) : Registered m' f' c handle i image' := by
  refine h.of_kept ?_ ?_ (.inl ?_) himg ?_ <;> rw [hslot]
  · exact .refl _
  · exact h.phase.resolve_right hf
  · exact h.root.trans hroot.symm

end Registered

/-- The spaces of installed images have roots of their own. -/
structure Distinct (m : Machine) : Prop where
  roots : ∀ k k', (m.runtime.spaces k).committed → (m.runtime.spaces k').committed →
    (m.runtime.spaces k).root = (m.runtime.spaces k').root → k = k'
  kernel : ∀ k, (m.runtime.spaces k).committed → (m.runtime.spaces k).root ≠ m.kernelRoot
  active : m.activeRoot = m.kernelRoot ∨
    ∃ k, (m.runtime.spaces k).committed ∧ (m.runtime.spaces k).root = m.activeRoot

structure Housed (init : ProcessImageHandle) (f : Flight) (m : Machine) : Prop
    extends Distinct m where
  numbered : Numbered m.table
  owned : Owned m.runtime (m.owns init f)
  home : ∀ i, Live (m.table.slots i) → Home m init f (m.table.slots i)
  registered : ∀ c handle, m.registry.handles c = some handle →
    ∃ i image, Registered m f c handle i image
  waiting : ∀ c, m.registry.launched c = false → m.registry.handles c = none ∧
    ∀ launch image, m.registry.launches c = some launch → m.registry.images c = some image →
      launch.addressSpaceRoot = m.runtime.rootOf image ∧
      ServiceImageRegistry.index launch.serviceClass = some c
  leaving : ∀ handle, f = .leaving handle →
    ∀ i, Live (m.table.slots i) → (m.table.slots i).threadGroup ≠ handle.pid

variable {init : ProcessImageHandle} {f : Flight} {m : Machine}

theorem committed_of_holds (h : r.holds image) : (r.spaces image.slot).committed := by
  rw [holds, Bool.and_eq_true] at h
  exact h.1

variable {o : Owner} {f' : Flight}

namespace Housed

/-- Images of different owners have different roots. -/
theorem root_ne (h : Housed init f m) {o' : Owner} {image' : ProcessImageHandle}
    (ho : m.owns init f o = some image) (ho' : m.owns init f o' = some image') (hne : o ≠ o') :
    m.runtime.rootOf image ≠ m.runtime.rootOf image' := fun heq =>
  hne (h.owned.apart o o' image image' ho ho'
    (h.roots _ _ (committed_of_holds (h.owned.holds o image ho))
      (committed_of_holds (h.owned.holds o' image' ho')) heq))

/-- Nobody lives in an image that is about to be released. -/
theorem vacant (h : Housed init f m) (ho : m.owns init f o = some image)
    (hout : o = .pending ∨ o = .held) (hf : ∀ handle old, f ≠ .moving handle old)
    (i : TaskIndex) (hi : Live (m.table.slots i)) :
    (m.table.slots i).launch.addressSpaceRoot ≠ m.runtime.rootOf image := by
  cases h.home i hi with
  | init hroot =>
    rw [hroot]
    refine h.root_ne (o := .init) rfl ho ?_
    rcases hout with rfl | rfl <;> simp
  | @service c _ _ himg hroot =>
    rw [hroot]
    refine h.root_ne (o := .service c) himg ho ?_
    rcases hout with rfl | rfl <;> simp
  | moving hmov => exact absurd hmov (hf _ _)

variable {c : ServiceIndex}

/-- A registered process is in the slot that its handle names. -/
theorem registered_slot (h : Housed init f m) {j : TaskIndex}
    (hj : (m.table.slots j).occupied) (hhd : m.registry.handles c = some (m.table.slots j).handle) :
    ∃ image, Registered m f c (m.table.slots j).handle j image := by
  obtain ⟨i, image, hreg⟩ := h.registered c _ hhd
  obtain ⟨hi, heq⟩ := handle_of_holds hreg.holds
  obtain rfl := h.numbered.pid_inj i j hi hj (congrArg (·.pid) heq)
  exact ⟨image, hreg⟩

/-! ### Steps of the process table -/

/-- Where a system call stands when the process led by the task in a slot has ended. -/
def departure (s : Lifecycle) : Option TaskIndex → Flight
  | none => .nothing
  | some j => .leaving (s.slots j).handle

/-- The table moves on, and at most one process goes. If it is registered, it ends with all
its threads. -/
theorem step (h : Housed init .nothing m) {t : Lifecycle}
    {gone ended : Option TaskIndex}
    (htenants : Tenants m.table t gone) (hgone : ∀ c j,
      m.registry.handles c = some (m.table.slots j).handle → gone = some j → ended = some j)
    (hnum : Numbered t) (hends : ∀ j, ended = some j → Ends m.table t j) :
    Housed init (departure m.table ended) { m with table := t } := by
  have hheld : (departure m.table ended).held = none := by cases ended <;> rfl
  have howns : Machine.owns { m with table := t } init (departure m.table ended) =
      m.owns init .nothing := by
    funext o
    cases o with
    | held => exact hheld
    | _ => rfl
  -- a registered process is a live leader, so it ends or stays
  have hstays {c : ServiceIndex} {handle : ProcessHandle} {j : TaskIndex}
      {image : ProcessImageHandle} (hhd : m.registry.handles c = some handle)
      (hreg : Registered m .nothing c handle j image) :
      Live (m.table.slots j) ∧ (ended ≠ some j → Stays (m.table.slots j) (t.slots j)) := by
    obtain ⟨hocc, rfl⟩ := handle_of_holds hreg.holds
    have hlive : Live (m.table.slots j) := by
      refine ⟨hocc, hreg.phase.resolve_right ?_⟩
      simp
    exact ⟨hlive, fun hne => htenants.leader j hlive hreg.leads fun hj => hne (hgone c j hhd hj)⟩
  refine
    { toDistinct := ⟨h.roots, h.kernel, h.active⟩
      numbered := hnum
      owned := howns ▸ h.owned
      home := fun i hi => ?_
      registered := fun c handle hhd => ?_
      waiting := h.waiting
      leaving := fun handle hf i hi => ?_ }
  · obtain ⟨j, hj, hgrp, hroot⟩ := htenants.source i hi
    cases h.home j hj with
    | init hinit => exact .init (hroot.trans hinit)
    | @service c image k himg hservice hleads hhd =>
      obtain ⟨hocc, hpid, hkgroup⟩ := leads_iff.mp hleads
      obtain ⟨_, hreg⟩ := h.registered_slot hocc hhd
      have hstay := (hstays hhd hreg).2 fun hended =>
        (hends k hended).alone i hi (by rw [hgrp, hkgroup])
      refine .service (j := k) himg (hroot.trans hservice) ?_ ?_
      · rw [leads_iff, hstay.occupied, hstay.threadGroup, hgrp]
        exact ⟨hocc, (congrArg (·.pid) hstay.handle).trans hpid, hkgroup⟩
      · rw [hstay.handle]
        exact hhd
    | moving hf => cases hf
  · obtain ⟨j, image, hreg⟩ := h.registered c handle hhd
    have hhome : (departure m.table ended).homeOf handle image = image := by cases ended <;> rfl
    have hroot (hlau : (t.slots j).launch = (m.table.slots j).launch) :
        (t.slots j).launch.addressSpaceRoot =
          m.runtime.rootOf ((departure m.table ended).homeOf handle image) := by
      rw [hlau, hhome]
      exact hreg.root
    refine ⟨j, image, ?_⟩
    by_cases hended : ended = some j
    · have hend := hends j hended
      refine hreg.of_kept hend.kept (congrArg _ hend.launch) (.inr ?_) hreg.installed
        (hroot hend.launch)
      rw [hended, departure, (handle_of_holds hreg.holds).2]
    · have hstay := (hstays hhd hreg).2 hended
      refine hreg.of_kept hstay.toKept (congrArg _ hstay.launch) (.inl ?_)
        hreg.installed (hroot hstay.launch)
      exact (hstay.live.mpr (hstays hhd hreg).1).2
  · cases ended with
    | none => cases hf
    | some j =>
      cases hf
      have hend := hends j rfl
      have halone := hend.alone i hi
      rwa [← hend.leads] at halone

/-! ### Steps of the registry -/

variable {handle : ProcessHandle}

/-- The process that has ended owns no image. -/
theorem left (h : Housed init f m) (hf : f = .leaving handle)
    (hnone : ∀ c, m.registry.handles c ≠ some handle) : Housed init .nothing m := by
  subst hf
  refine
    { toDistinct := h.toDistinct
      numbered := h.numbered
      owned := ⟨fun o => h.owned.holds o, fun o o' => h.owned.apart o o'⟩
      home := fun i hi => ?_
      registered := fun c handle' hhd => ?_
      waiting := h.waiting
      leaving := nofun }
  · cases h.home i hi with
    | init hroot => exact .init hroot
    | service himg hroot hleads hhd => exact .service himg hroot hleads hhd
    | moving hmov => cases hmov
  · obtain ⟨i, image, hreg⟩ := h.registered c handle' hhd
    refine ⟨i, image, { hreg with phase := .inl ?_ }⟩
    refine hreg.phase.resolve_right fun heq => ?_
    cases heq
    exact hnone c hhd

/-- The image of a process that has ended is taken from the registry. -/
theorem take (h : Housed init f m) (hf : f = .leaving handle)
    (hhd : m.registry.handles c = some handle) (himg : m.registry.images c = some image) :
    Housed init (.taken image) { m with registry := m.registry.without c } := by
  subst hf
  have hoth {c' : ServiceIndex} {handle' : ProcessHandle}
      (hhd' : (m.registry.without c).handles c' = some handle') :
      c' ≠ c ∧ m.registry.handles c' = some handle' := by
    have hne : c' ≠ c := by
      rintro rfl
      simp [without] at hhd'
    exact ⟨hne, by simpa [without, hne] using hhd'⟩
  have himages {c' : ServiceIndex} (hne : c' ≠ c) :
      (m.registry.without c).images c' = m.registry.images c' := by
    simp [without, hne]
  refine
    { toDistinct := ⟨h.roots, h.kernel, h.active⟩
      numbered := h.numbered
      owned := h.owned.swap .held (.service c) (fun o image' ho => ?_) fun _ _ _ hholds => hholds
      home := fun i hi => ?_
      registered := fun c' handle' hhd' => ?_
      waiting := fun c' hlaunched => ?_
      leaving := nofun }
  · cases o with
    | init | pending => exact ho
    | held => exact himg.trans ho
    | service c' =>
      have hne : c' ≠ c := by
        rintro rfl
        simp [Machine.owns, without] at ho
      rw [Equiv.swap_apply_of_ne_of_ne (by simp) (by simp [hne])]
      exact (himages hne).symm.trans ho
  · cases h.home i hi with
    | init hroot => exact .init hroot
    | @service c' image' j himg' hroot hleads hhd' =>
      have hne : c' ≠ c := by
        rintro rfl
        have heq := Option.some.inj (hhd'.symm.trans hhd)
        refine h.leaving handle rfl i hi ?_
        rw [← heq]
        exact (leads_iff.mp hleads).2.1.symm
      refine .service (c := c') ((himages hne).trans himg') hroot hleads ?_
      simpa [without, hne] using hhd'
    | moving hmov => cases hmov
  · obtain ⟨hne, hbef⟩ := hoth hhd'
    obtain ⟨i, image', hreg⟩ := h.registered c' handle' hbef
    refine ⟨i, image', { hreg with
      phase := .inl (hreg.phase.resolve_right fun heq => ?_)
      installed := (himages hne).trans hreg.installed }⟩
    cases heq
    obtain ⟨j, _, hown⟩ := h.registered c handle hhd
    obtain ⟨hi, hslot⟩ := handle_of_holds hreg.holds
    obtain ⟨hj, hslot'⟩ := handle_of_holds hown.holds
    obtain rfl := h.numbered.pid_inj i j hi hj (congrArg (·.pid) (hslot.trans hslot'.symm))
    exact hne (Option.some.inj (hreg.serviceClass.symm.trans hown.serviceClass))
  · obtain ⟨hnone, hlau⟩ := h.waiting c' hlaunched
    have hne : c' ≠ c := by
      rintro rfl
      simp [hnone] at hhd
    refine ⟨by simpa [without, hne] using hnone, fun launch image' hlaunches => ?_⟩
    rw [himages hne]
    exact hlau launch image' hlaunches

/-! ### Steps of the runtime -/

end Housed

/-- No process is ending or moving. -/
def Flight.calm : Flight → Bool
  | .nothing | .taken _ => true
  | .leaving _ | .moving _ _ => false

theorem Flight.homeOf_calm (hf : f.calm) (handle : ProcessHandle)
    (image : ProcessImageHandle) : f.homeOf handle image = image := by
  cases f with
  | moving => cases hf
  | _ => rfl

namespace Housed

/-- The runtime changes, but the homes stay what they are. -/
theorem withRuntime (h : Housed init f m) {activeRoot : Word}
    (hf : f.calm) (hf' : f'.calm) (hdist : Distinct { m with runtime := r, activeRoot })
    (howned : Owned r (Machine.owns { m with runtime := r, activeRoot } init f'))
    (hinit : r.rootOf init = m.runtime.rootOf init)
    (hservice : ∀ c image, m.registry.images c = some image →
      r.rootOf image = m.runtime.rootOf image) :
    Housed init f' { m with runtime := r, activeRoot } := by
  have hcalm {g : Flight} (hg : g.calm) (handle : ProcessHandle) (old : ProcessImageHandle) :
      g ≠ .leaving handle ∧ g ≠ .moving handle old := by
    constructor <;> rintro rfl <;> cases hg
  refine
    { toDistinct := hdist
      numbered := h.numbered
      owned := howned
      home := fun i hi => ?_
      registered := fun c handle hhd => ?_
      waiting := fun c hlaunched => ?_
      leaving := fun handle heq => absurd heq (hcalm hf' handle init).1 }
  · cases h.home i hi with
    | init hroot => exact .init (hroot.trans hinit.symm)
    | service himg hroot hleads hhd =>
      exact .service himg (hroot.trans (hservice _ _ himg).symm) hleads hhd
    | moving hmov => exact absurd hmov (hcalm hf _ _).2
  · obtain ⟨i, image, hreg⟩ := h.registered c handle hhd
    refine ⟨i, image, { hreg with
      phase := .inl (hreg.phase.resolve_right (hcalm hf handle image).1)
      root := ?_ }⟩
    have hroot := hreg.root
    rw [Flight.homeOf_calm hf] at hroot
    rw [Flight.homeOf_calm hf']
    exact hroot.trans (hservice c image hreg.installed).symm
  · obtain ⟨hnone, hlau⟩ := h.waiting c hlaunched
    refine ⟨hnone, fun launch image hlaunches himg => ?_⟩
    obtain ⟨hroot, hidx⟩ := hlau launch image hlaunches himg
    exact ⟨hroot.trans (hservice c image himg).symm, hidx⟩

/-- The image in the hands of a system call is put down for the reaper. -/
theorem defer (h : Housed init f m) (hf : f = .taken image) :
    Housed init .nothing { m with runtime := { m.runtime with pendingReap := some image } } := by
  subst hf
  refine h.withRuntime rfl rfl ⟨h.roots, h.kernel, h.active⟩ ?_ rfl fun _ _ _ => rfl
  refine h.owned.swap .held .pending (fun o image' ho => ?_) fun _ _ _ hholds => hholds
  cases o with
  | init | pending | service => exact ho
  | held => cases ho

end Housed

variable {p : Option ProcessImageHandle}

theorem Distinct.freed (h : Distinct m) (hact : m.activeRoot ≠ m.runtime.rootOf image) :
    Distinct { m with runtime := { m.runtime.freed image with pendingReap := p } } where
  roots k k' hk hk' hroot := by
    have hne := committed_of_freed hk
    have hne' := committed_of_freed hk'
    rw [freed_other hne] at hk hroot
    rw [freed_other hne'] at hk' hroot
    exact h.roots k k' hk hk' hroot
  kernel k hk := by
    have hne := committed_of_freed hk
    rw [freed_other hne] at hk ⊢
    exact h.kernel k hk
  active := by
    rcases h.active with hkernel | ⟨k, hk, hroot⟩
    · exact .inl hkernel
    refine .inr ⟨k, ?_⟩
    have hne : k ≠ image.slot := by
      rintro rfl
      exact hact hroot.symm
    rw [freed_other hne]
    exact ⟨hk, hroot⟩

namespace Housed

/-- An image that an owner gives up is released. -/
theorem release (h : Housed init f m) (hf : f.calm) (hf' : f'.calm)
    (ho : m.owns init f o = some image) (hact : m.activeRoot ≠ m.runtime.rootOf image)
    (howns : ∀ o' image',
      Machine.owns { m with runtime := { m.runtime.freed image with pendingReap := p } } init f'
        o' = some image' → m.owns init f o' = some image' ∧ o' ≠ o) :
    Housed init f' { m with runtime := { m.runtime.freed image with pendingReap := p } } := by
  refine h.withRuntime hf hf' (h.toDistinct.freed hact) ?_ (rootOf_freed _ _ _)
    fun _ _ _ => rootOf_freed _ _ _
  refine h.owned.swap o o (fun o' image' ho' => ?_) fun o' image' ho' hholds => ?_
  · rw [Equiv.swap_self]
    exact (howns o' image' ho').1
  · have hslot : image'.slot ≠ image.slot := fun hslot =>
      (howns o' image' ho').2 (h.owned.apart _ _ _ _ (howns o' image' ho').1 ho hslot)
    rw [holds] at hholds ⊢
    rwa [freed_other hslot]

/-- The image that waits is reaped. -/
theorem reap (h : Housed init .nothing m)
    (hpend : m.runtime.pendingReap = some image) (hact : m.activeRoot ≠ m.runtime.rootOf image) :
    ∃ r, m.runtime.reap .freed m.activeRoot = (.ok true, r) ∧ r.pendingReap = none ∧
      Housed init .nothing { m with runtime := r } := by
  have hholds := h.owned.holds .pending image hpend
  refine ⟨{ m.runtime.freed image with pendingReap := none }, ?_, rfl, ?_⟩
  · have hrel : ProcessRuntime.releaseProcess image .freed m.activeRoot
        { m.runtime with pendingReap := none } = _ :=
      ProcessRuntime.releaseProcess_freed hholds hact
    rw [ProcessRuntime.reap, hpend]
    dsimp only
    rw [hrel]
    rfl
  · refine h.release rfl rfl (o := .pending) hpend hact fun o' image' ho' => ?_
    cases o' with
    | pending | held => cases ho'
    | init | service => exact ⟨ho', by simp⟩

/-- An image that does not become that of a process is released at once. -/
theorem discard (h : Housed init f m) (hf : f = .taken image)
    (hact : m.activeRoot ≠ m.runtime.rootOf image) :
    ∃ r, m.runtime.discardExecImage image .freed m.activeRoot = (.ok (), r) ∧
      Housed init .nothing { m with runtime := r } := by
  subst hf
  have hholds := h.owned.holds .held image rfl
  refine ⟨m.runtime.freed image, ?_, ?_⟩
  · rw [discardExecImage, releaseProcess_freed hholds hact]
  · refine h.release (p := m.runtime.pendingReap) rfl rfl (o := .held) rfl hact
      fun o' image' ho' => ?_
    cases o' with
    | held => cases ho'
    | pending | init | service => exact ⟨ho', by simp⟩

end Housed

/-- A frame that is not the root of an installed image, nor that of the kernel. -/
structure Unused (m : Machine) (root : Word) : Prop where
  kernel : root ≠ m.kernelRoot
  spaces : ∀ k, (m.runtime.spaces k).committed → (m.runtime.spaces k).root ≠ root

variable {root : Word}

theorem Unused.active (h : Unused m root) (hdist : Distinct m) : m.activeRoot ≠ root := by
  rcases hdist.active with hkernel | ⟨k, hk, hroot⟩
  · rw [hkernel]
    exact h.kernel.symm
  · rw [← hroot]
    exact h.spaces k hk

theorem Housed.unused (h : Housed init .nothing m) (hroot : Unused m root) (i : TaskIndex)
    (hi : Live (m.table.slots i)) : (m.table.slots i).launch.addressSpaceRoot ≠ root := by
  cases h.home i hi with
  | init hhome =>
    rw [hhome]
    exact hroot.spaces _ (committed_of_holds (h.owned.holds .init init rfl))
  | @service c image _ himg hhome =>
    rw [hhome]
    exact hroot.spaces _ (committed_of_holds (h.owned.holds (.service c) image himg))
  | moving hf => cases hf

section Spaces

variable {k : Fin maximumRetainedProcesses} {space : SpaceSlot}

theorem setSpace_other {k' : Fin maximumRetainedProcesses} (hk : k' ≠ k) :
    (m.runtime.setSpace k space).spaces k' = m.runtime.spaces k' := by
  simp [setSpace, hk]

/-- A free space gets a root of its own, or stays free. -/
theorem Distinct.setSpace (h : Distinct m) (hfree : (m.runtime.spaces k).committed = false)
    (hsp : space.committed → Unused m space.root) :
    Distinct { m with runtime := m.runtime.setSpace k space } where
  roots a b := by
    dsimp only [ProcessRuntime.setSpace]
    refine update_cases ?_ (fun a _ => ?_) a <;> refine update_cases ?_ (fun b _ => ?_) b
    · exact fun _ _ _ => rfl
    · exact fun ha hb hroot => absurd hroot.symm ((hsp ha).spaces b hb)
    · exact fun ha hb hroot => absurd hroot ((hsp hb).spaces a ha)
    · exact h.roots a b
  kernel := by
    dsimp only [ProcessRuntime.setSpace]
    exact update_cases (fun ha => (hsp ha).kernel) fun a _ => h.kernel a
  active := by
    rcases h.active with hkernel | ⟨a, ha, hroot⟩
    · exact .inl hkernel
    refine .inr ⟨a, ?_⟩
    have hak : a ≠ k := by
      rintro rfl
      exact Bool.noConfusion (hfree.symm.trans ha)
    rw [setSpace_other hak]
    exact ⟨ha, hroot⟩

theorem slot_ne_of_free (hfree : (m.runtime.spaces k).committed = false)
    (hholds : m.runtime.holds image) : image.slot ≠ k := by
  rintro rfl
  exact Bool.noConfusion (hfree.symm.trans (committed_of_holds hholds))

theorem holds_setSpace (hfree : (m.runtime.spaces k).committed = false)
    (hholds : m.runtime.holds image) : (m.runtime.setSpace k space).holds image := by
  rwa [holds, setSpace_other (slot_ne_of_free hfree hholds)]

theorem freeSpace_free (h : m.runtime.freeSpace = some k) :
    (m.runtime.spaces k).committed = false := by
  have hfree := position_some h
  simp only [Bool.and_eq_true, Bool.not_eq_true'] at hfree
  exact hfree.1

end Spaces

namespace Housed

variable {k : Fin maximumRetainedProcesses} {space : SpaceSlot}

/-- Homes do not depend on a free space. -/
theorem rootOf_setSpace (h : Housed init .nothing m)
    (hfree : (m.runtime.spaces k).committed = false) (ho : m.owns init .nothing o = some image) :
    (m.runtime.setSpace k space).rootOf image = m.runtime.rootOf image := by
  rw [rootOf, setSpace_other (slot_ne_of_free hfree (h.owned.holds o image ho)), rootOf]

/-- An installation that is given up leaves a free space. -/
theorem abort (h : Housed init .nothing m) (hfree : (m.runtime.spaces k).committed = false)
    (hsp : space.committed = false) :
    Housed init .nothing { m with runtime := m.runtime.setSpace k space } := by
  refine h.withRuntime rfl rfl (h.toDistinct.setSpace hfree (by simp [hsp])) ?_
    (h.rootOf_setSpace hfree (o := .init) rfl)
    fun c image himg => h.rootOf_setSpace hfree (o := .service c) himg
  exact ⟨fun o image ho => holds_setSpace hfree (h.owned.holds o image ho),
    fun o o' image image' ho ho' => h.owned.apart o o' image image' ho ho'⟩

/-- A new image is in the hands of the system call that has installed it. -/
theorem install (h : Housed init .nothing m)
    (hfree : (m.runtime.spaces k).committed = false) (hroot : Unused m root) :
    Housed init (.taken (m.runtime.newImage k))
      { m with runtime := m.runtime.committed k root } := by
  refine h.withRuntime rfl rfl (h.toDistinct.setSpace hfree fun _ => hroot) ?_
    (h.rootOf_setSpace hfree (o := .init) rfl)
    fun c image himg => h.rootOf_setSpace hfree (o := .service c) himg
  have hold {o : Owner} {image : ProcessImageHandle}
      (ho : Machine.owns { m with runtime := m.runtime.committed k root } init
        (.taken (m.runtime.newImage k)) o = some image) :
      o = .held ∧ image = m.runtime.newImage k ∨ m.owns init .nothing o = some image := by
    cases o with
    | held =>
      cases ho
      exact .inl ⟨rfl, rfl⟩
    | init | pending | service => exact .inr ho
  refine ⟨fun o image ho => ?_, fun o o' image image' ho ho' hslot => ?_⟩
  · rcases hold ho with ⟨_, rfl⟩ | hbef
    · simp [holds, committed, setSpace, newImage]
    · exact holds_setSpace hfree (h.owned.holds o image hbef)
  · rcases hold ho with ⟨rfl, rfl⟩ | hbef <;> rcases hold ho' with ⟨rfl, rfl⟩ | hbef'
    · rfl
    · exact absurd hslot.symm (slot_ne_of_free hfree (h.owned.holds o' image' hbef'))
    · exact absurd hslot (slot_ne_of_free hfree (h.owned.holds o image hbef))
    · exact h.owned.apart o o' image image' hbef hbef' hslot

end Housed

end ArachKernel.Syscalls
