import ArachKernel.Syscalls.Housing

/-!
New processes and new images. A launch gives a new process the image of its class. In an
`execve` the registry first takes the new image for the old one; until the process table
has the new root, the process lives in an image that only the system call holds.
-/

namespace ArachKernel.Syscalls

open Process Process.Lifecycle Table ProcessSlot ServiceImageRegistry

variable {init : ProcessImageHandle} {f f' : Flight} {m : Machine}

namespace Housed

variable {caller : ProcessHandle} {c : ServiceIndex}
  {previous replacement : ProcessImageHandle}
  {i : TaskIndex} {c' : ServiceIndex}

/-- The slot of a registered process. -/
theorem registered_of_holds (h : Housed init f m) (hi : (m.table.slots i).holds caller)
    (hhd : m.registry.handles c = some caller) : ∃ image, Registered m f c caller i image := by
  obtain ⟨hocc, rfl⟩ := handle_of_holds hi
  exact h.registered_slot hocc hhd

/-- A process is registered for one class. -/
theorem class_unique (h : Housed init f m) (hhd : m.registry.handles c = some caller)
    (hhd' : m.registry.handles c' = some caller) : c' = c := by
  obtain ⟨i, _, hreg⟩ := h.registered c caller hhd
  obtain ⟨_, hreg'⟩ := h.registered_of_holds hreg.holds hhd'
  exact Option.some.inj (hreg'.serviceClass.symm.trans hreg.serviceClass)

theorem images_withImage (hne : c' ≠ c) :
    (m.registry.withImage c replacement).images c' = m.registry.images c' := by
  simp [withImage, hne]

theorem images_withImage_self :
    (m.registry.withImage c replacement).images c = some replacement := by
  simp [withImage]

section

variable (h : Housed init f m)
include h

/-- The registry takes the image in the hands of the system call for the one it has. -/
theorem owned_exchange (hf : f.held = some replacement)
    (hf' : f'.held = some previous) (himg : m.registry.images c = some previous) :
    Owned m.runtime
      (Machine.owns { m with registry := m.registry.withImage c replacement } init f') := by
  refine h.owned.swap .held (.service c) (fun o image ho => ?_) fun _ _ _ hholds => hholds
  cases o with
  | init | pending => exact ho
  | held =>
    exact himg.trans (hf'.symm.trans ho)
  | service c' =>
    by_cases hne : c' = c
    · subst hne
      rw [Equiv.swap_apply_right]
      exact hf.trans (images_withImage_self.symm.trans ho)
    · rw [Equiv.swap_apply_of_ne_of_ne (by simp) (by simp [hne])]
      exact (images_withImage hne).symm.trans ho

variable (hhd : m.registry.handles c = some caller)
include hhd

theorem waiting_exchange (c' : ServiceIndex)
    (hlaunched : m.registry.launched c' = false) :
    m.registry.handles c' = none ∧ ∀ launch image, m.registry.launches c' = some launch →
      (m.registry.withImage c replacement).images c' = some image →
      launch.addressSpaceRoot = m.runtime.rootOf image ∧
      index launch.serviceClass = some c' := by
  obtain ⟨hnone, hlau⟩ := h.waiting c' hlaunched
  have hne : c' ≠ c := by
    rintro rfl
    simp [hnone] at hhd
  refine ⟨hnone, fun launch image hlaunches himg => ?_⟩
  rw [images_withImage hne] at himg
  exact hlau launch image hlaunches himg

/-- The registered processes live where they did. -/
theorem registered_exchange (hf : ∀ handle, f ≠ .leaving handle)
    (himg : m.registry.images c = some previous)
    (hcall : f'.homeOf caller replacement = f.homeOf caller previous)
    (hoths : ∀ handle image, handle ≠ caller → f'.homeOf handle image = f.homeOf handle image)
    (c' : ServiceIndex) (handle : ProcessHandle)
    (hhd' : m.registry.handles c' = some handle) :
    ∃ i image, Registered { m with registry := m.registry.withImage c replacement } f' c' handle i
      image := by
  obtain ⟨i, image, hreg⟩ := h.registered c' handle hhd'
  by_cases hne : c' = c
  · subst hne
    obtain rfl := Option.some.inj (hhd'.symm.trans hhd)
    obtain rfl := Option.some.inj (hreg.installed.symm.trans himg)
    exact ⟨i, replacement, hreg.of_slot (hf _) rfl images_withImage_self (congrArg _ hcall)⟩
  · have hoth : handle ≠ caller := by
      rintro rfl
      exact hne (h.class_unique hhd hhd')
    exact ⟨i, image, hreg.of_slot (hf _) rfl
      ((images_withImage hne).trans hreg.installed) (congrArg _ (hoths handle image hoth))⟩

/-- The process has no live thread but its leader. -/
def Alone (t : Lifecycle) (caller : ProcessHandle) : Prop :=
  ∀ i j, Live (t.slots i) → (t.slots j).handle = caller →
    (t.slots j).leads (t.slots i).threadGroup → (t.slots i).handle = caller

/-- A process without threads is between its old image and a new one. -/
theorem exchange (hf : f = .taken replacement)
    (himg : m.registry.images c = some previous) (halone : Alone m.table caller) :
    Housed init (.moving caller previous)
      { m with registry := m.registry.withImage c replacement } := by
  subst hf
  refine
    { toDistinct := ⟨h.roots, h.kernel, h.active⟩
      numbered := h.numbered
      owned := h.owned_exchange rfl rfl himg
      home := fun i hi => ?_
      registered := h.registered_exchange hhd (by simp) himg (if_pos rfl) fun _ _ hne => if_neg hne
      waiting := h.waiting_exchange hhd
      leaving := nofun }
  cases h.home i hi with
  | init hroot => exact .init hroot
  | @service c' image j himg' hroot hleads hhd' =>
    by_cases hne : c' = c
    · subst hne
      obtain rfl := Option.some.inj (himg'.symm.trans himg)
      have hlead := Option.some.inj (hhd'.symm.trans hhd)
      exact .moving (by rw [halone i j hi hlead hleads]) hroot
    · exact .service ((images_withImage hne).trans himg') hroot hleads hhd'
  | moving hmov => cases hmov

/-- The process keeps its old image. -/
theorem exchangeBack (hf : f = .moving caller replacement)
    (himg : m.registry.images c = some previous) (halone : Alone m.table caller) :
    Housed init (.taken previous) { m with registry := m.registry.withImage c replacement } := by
  subst hf
  have hcall {i : TaskIndex} (hi : (m.table.slots i).occupied)
      (heq : (m.table.slots i).handle = caller) :
      (m.table.slots i).launch.addressSpaceRoot = m.runtime.rootOf replacement ∧
        (m.table.slots i).pid = (m.table.slots i).threadGroup := by
    obtain ⟨image, hreg⟩ := h.registered_slot hi (by rw [hhd, heq])
    have hroot := hreg.root
    rw [Flight.homeOf, if_pos heq] at hroot
    exact ⟨hroot, hreg.leads⟩
  refine
    { toDistinct := ⟨h.roots, h.kernel, h.active⟩
      numbered := h.numbered
      owned := h.owned_exchange rfl rfl himg
      home := fun i hi => ?_
      registered := h.registered_exchange hhd (by simp) himg (if_pos rfl).symm
        fun _ _ hne => (if_neg hne).symm
      waiting := h.waiting_exchange hhd
      leaving := nofun }
  cases h.home i hi with
  | init hroot => exact .init hroot
  | @service c' image j himg' hroot hleads hhd' =>
    by_cases hne : c' = c
    · -- the caller does not live in the image that goes back
      subst hne
      obtain rfl := Option.some.inj (himg'.symm.trans himg)
      have hlead := Option.some.inj (hhd'.symm.trans hhd)
      have hold := (hcall hi.1 (halone i j hi hlead hleads)).1
      have hheld : m.owns init (.moving caller replacement) .held = some replacement := rfl
      exact absurd (hroot.symm.trans hold) (h.root_ne (o := .service c') himg hheld (by simp))
    · exact .service ((images_withImage hne).trans himg') hroot hleads hhd'
  | moving hmov hroot =>
    cases hmov
    refine .service images_withImage_self hroot (leads_iff.mpr ⟨hi.1, ?_, rfl⟩) hhd
    exact (hcall hi.1 rfl).2

/-- The process table has the new root of the process. -/
theorem reimage {t : Lifecycle} (hf : f = .moving caller previous) (hnum : Numbered t)
    (himg : m.registry.images c = some replacement) (hi : (m.table.slots i).holds caller)
    (hkept : Kept (m.table.slots i) (t.slots i)) (hph : (t.slots i).phase ≠ .zombie)
    (hroot : (t.slots i).launch.addressSpaceRoot = m.runtime.rootOf replacement)
    (hclass : (t.slots i).launch.serviceClass = (m.table.slots i).launch.serviceClass)
    (hoths : ∀ j, j ≠ i → t.slots j = m.table.slots j) :
    Housed init (.taken previous) { m with table := t } := by
  subst hf
  obtain ⟨hocc, heq⟩ := handle_of_holds hi
  obtain ⟨image, hreg⟩ := h.registered_of_holds hi hhd
  obtain rfl := Option.some.inj (hreg.installed.symm.trans himg)
  have hself {j : TaskIndex} (hj : (m.table.slots j).occupied)
      (hjcaller : (m.table.slots j).handle = caller) : j = i :=
    h.numbered.pid_inj j i hj hocc (congrArg (·.pid) (hjcaller.trans heq.symm))
  have hleads {j : TaskIndex} {group : ℕ} (hj : (m.table.slots j).leads group) :
      (t.slots j).leads group ∧ (t.slots j).handle = (m.table.slots j).handle := by
    by_cases hji : j = i
    · subst hji
      refine ⟨?_, hkept.handle⟩
      rw [leads_iff, hkept.occupied, hkept.threadGroup]
      obtain ⟨hjoccupied, hpid, hgrp⟩ := leads_iff.mp hj
      exact ⟨hjoccupied, (congrArg (·.pid) hkept.handle).trans hpid, hgrp⟩
    · rw [hoths j hji]
      exact ⟨hj, rfl⟩
  refine
    { toDistinct := ⟨h.roots, h.kernel, h.active⟩
      numbered := hnum
      owned := ⟨fun o => h.owned.holds o, fun o o' => h.owned.apart o o'⟩
      home := fun j hj => ?_
      registered := fun c' handle hhd' => ?_
      waiting := h.waiting
      leaving := nofun }
  · by_cases hji : j = i
    · subst hji
      refine .service (j := j) himg hroot ?_ ?_
      · refine (hleads ?_).1
        rw [leads_iff, hkept.threadGroup]
        exact ⟨hocc, hreg.leads, rfl⟩
      · rw [hkept.handle, heq]
        exact hhd
    · rw [hoths j hji] at hj ⊢
      cases h.home j hj with
      | init hhome => exact .init hhome
      | @service c' image' k himg' hhome hkleads hkhandle =>
        refine .service (j := k) himg' hhome (hleads hkleads).1 ?_
        rw [(hleads hkleads).2]
        exact hkhandle
      | moving hmov =>
        have hcall : caller = (m.table.slots j).handle := by cases hmov; rfl
        exact absurd (hself hj.1 hcall.symm) hji
  · obtain ⟨k, image', hreg'⟩ := h.registered c' handle hhd'
    obtain ⟨hk, hkhandle⟩ := handle_of_holds hreg'.holds
    by_cases hki : k = i
    · subst hki
      obtain rfl : handle = caller := hkhandle.symm.trans heq
      obtain rfl := h.class_unique hhd hhd'
      exact ⟨k, image, hreg.of_kept hkept hclass (.inl hph) himg hroot⟩
    · have hne : handle ≠ caller := by
        rintro rfl
        exact hki (hself hk hkhandle)
      exact ⟨k, image', hreg'.of_slot (by simp) (hoths k hki) hreg'.installed
        (congrArg _ (if_neg hne).symm)⟩

end

/-- A process of a class that had none. -/
theorem launch (h : Housed init .nothing m) {t : Lifecycle}
    {launch : ProcessLaunch} {image : ProcessImageHandle} (hnum : Numbered t)
    (hlaunched : m.registry.launched c = false) (hlaunches : m.registry.launches c = some launch)
    (himg : m.registry.images c = some image) (hfree : (m.table.slots i).occupied = false)
    (hleads : (t.slots i).leads (t.slots i).threadGroup) (hph : (t.slots i).phase = .runnable)
    (hlau : (t.slots i).launch = launch) (hoths : ∀ j, j ≠ i → t.slots j = m.table.slots j) :
    Housed init .nothing
      { m with table := t, registry := m.registry.withProcess c (t.slots i).handle } := by
  obtain ⟨hnone, hwait⟩ := h.waiting c hlaunched
  obtain ⟨hroot, hidx⟩ := hwait launch image hlaunches himg
  have hhandles {c' : ServiceIndex} (hne : c' ≠ c) :
      (m.registry.withProcess c (t.slots i).handle).handles c' = m.registry.handles c' := by
    simp [withProcess, hne]
  have hself :
      (m.registry.withProcess c (t.slots i).handle).handles c = some (t.slots i).handle := by
    simp [withProcess]
  have hne_of_occupied {j : TaskIndex} (hj : (m.table.slots j).occupied) : j ≠ i := by
    rintro rfl
    exact Bool.noConfusion (hfree.symm.trans hj)
  refine
    { toDistinct := ⟨h.roots, h.kernel, h.active⟩
      numbered := hnum
      owned := ⟨fun o => h.owned.holds o, fun o o' => h.owned.apart o o'⟩
      home := fun j hj => ?_
      registered := fun c' handle hhd' => ?_
      waiting := fun c' hlaunched' => ?_
      leaving := nofun }
  · by_cases hji : j = i
    · subst hji
      refine .service (j := j) himg ?_ hleads hself
      rw [hlau]
      exact hroot
    · rw [hoths j hji] at hj ⊢
      cases h.home j hj with
      | init hhome => exact .init hhome
      | @service c' image' k himg' hhome hkleads hkhandle =>
        have hne : c' ≠ c := by
          rintro rfl
          simp [hnone] at hkhandle
        have hk := hoths k (hne_of_occupied (leads_iff.mp hkleads).1)
        refine .service (j := k) himg' hhome ?_ ?_ <;> dsimp only <;> rw [hk]
        · exact hkleads
        · rw [hhandles hne]
          exact hkhandle
      | moving hmov => cases hmov
  · by_cases hne : c' = c
    · subst hne
      obtain rfl := Option.some.inj (hself.symm.trans hhd')
      obtain ⟨hocc, hpid, _⟩ := leads_iff.mp hleads
      refine ⟨i, image, ?_, hpid, ?_, .inl (by simp [hph]), himg, ?_⟩
      · simp [holds, handle, hocc]
      · rw [hlau]
        exact hidx
      · rw [hlau]
        exact hroot
    · rw [hhandles hne] at hhd'
      obtain ⟨k, image', hreg⟩ := h.registered c' handle hhd'
      have hk := hoths k (hne_of_occupied (handle_of_holds hreg.holds).1)
      exact ⟨k, image', hreg.of_slot (by simp) hk hreg.installed rfl⟩
  · have hne : c' ≠ c := by
      rintro rfl
      simp [withProcess] at hlaunched'
    rw [hhandles hne]
    exact h.waiting c' (by simpa [withProcess, hne] using hlaunched')

end Housed

end ArachKernel.Syscalls
