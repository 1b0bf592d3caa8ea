import ArachKernel.Linux.Pipe

/-!
What the calls on pipes can do to the registry, said once per call, and the
well-formedness of the registry that every call keeps: the ends of a pipe that
are open are exactly the ones that an endpoint still names, and the ring indices
are in range.
-/

namespace ArachKernel.LinuxPipe

open Table

variable {r r' : PipeRegistry} {owner : ProcessHandle} {handle : ℕ}

@[simp] theorem setPipe_endpoints (i : Fin maximumPipes) (p : PipeSlot) :
    (r.setPipe i p).endpoints = r.endpoints := rfl

@[simp] theorem setEndpoint_pipes (x : EndpointIndex) (e : EndpointSlot) :
    (r.setEndpoint x e).pipes = r.pipes := rfl

theorem setPipe_pipes (i j : Fin maximumPipes) (p : PipeSlot) :
    (r.setPipe i p).pipes j = if j = i then p else r.pipes j := Function.update_apply ..

theorem setEndpoint_endpoints (x y : EndpointIndex) (e : EndpointSlot) :
    (r.setEndpoint x e).endpoints y = if y = x then e else r.endpoints y :=
  Function.update_apply ..

/-- `handle` names the endpoint at `x`, held by `owner`, and that endpoint's pipe. -/
structure Resolves (r : PipeRegistry) (owner : ProcessHandle) (handle : ℕ)
    (x : EndpointIndex) : Prop where
  decoded : decodeEndpoint handle = some (x, (r.endpoints x).generation)
  occupied : (r.endpoints x).occupied
  endpoint_owner : (r.endpoints x).owner = owner
  pipe_occupied : (r.pipes (r.endpoints x).pipeIndex).occupied
  pipe_generation : (r.pipes (r.endpoints x).pipeIndex).generation = (r.endpoints x).pipeGeneration
  pipe_owner : (r.pipes (r.endpoints x).pipeIndex).owner = owner

variable {e : EndpointSlot}

theorem resolvedEndpoint_eq_ok {i : Fin maximumPipes} :
    resolvedEndpoint r owner handle = .ok (i, e) ↔
      ∃ x, Resolves r owner handle x ∧ r.endpoints x = e ∧ e.pipeIndex = i := by
  constructor
  · intro h
    unfold resolvedEndpoint at h
    split at h
    · cases h
    next x generation hdec =>
    simp only [Bool.or_eq_true, Bool.not_eq_true', bne_iff_ne] at h
    split at h
    · cases h
    next hendp =>
    split at h
    · cases h
    next hpipe =>
    cases h
    simp only [not_or, not_not, Bool.not_eq_false] at hendp hpipe
    obtain ⟨⟨hocc, hgen⟩, hown⟩ := hendp
    obtain ⟨⟨hpocc, hpgen⟩, hpowner⟩ := hpipe
    exact ⟨x, ⟨by rw [hdec, hgen], hocc, hown, hpocc, hpgen, hpowner⟩, rfl, rfl⟩
  · rintro ⟨x, hx, rfl, rfl⟩
    simp [resolvedEndpoint, hx.decoded, hx.occupied, hx.endpoint_owner, hx.pipe_occupied,
      hx.pipe_generation, hx.pipe_owner]

/-- The pipe slot and the generation of the pipe that an endpoint belongs to. -/
def EndpointSlot.pipe (e : EndpointSlot) : Fin maximumPipes × ℕ := (e.pipeIndex, e.pipeGeneration)

/-! ### One lemma per call -/

/-- What `allocate` chooses. -/
structure Allocates (r : PipeRegistry) (a : Allocation) : Prop where
  pipe_free : (r.pipes a.pipeIndex).occupied = false
  pipe_generation : a.pipeGeneration = (r.pipes a.pipeIndex).generation + 1
  read_generation : a.readGeneration = (r.endpoints a.readIndex).generation + 1
  write_generation : a.writeGeneration = (r.endpoints a.writeIndex).generation + 1

variable {x : EndpointIndex}

theorem nextGeneration_eq_some {current next : ℕ} (h : nextGeneration current = some next) :
    next = current + 1 := by
  rw [nextGeneration, Option.filter_eq_some_iff] at h
  exact (checkedAdd_eq_some.mp h.1).2

variable {a : Allocation}

theorem allocates_of_allocate (h : allocate r = some a) : Allocates r a := by
  simp only [allocate, Option.bind_eq_bind, Option.bind_eq_some_iff, Option.pure_def,
    Option.some.injEq] at h
  obtain ⟨i, hi, x, _, y, _, pg, hpg, xg, hxg, yg, hyg, xh, _, yh, _, rfl⟩ := h
  exact
    { pipe_free := by simpa using position_some hi
      pipe_generation := (checkedAdd_eq_some.mp hpg).2
      read_generation := nextGeneration_eq_some hxg
      write_generation := nextGeneration_eq_some hyg }

/-- The registry with a new pipe in the chosen slots. -/
def installed (r : PipeRegistry) (owner : ProcessHandle) (a : Allocation) : PipeRegistry :=
  ((r.setPipe a.pipeIndex (newPipe owner a)).setEndpoint a.readIndex
    (newEndpoint owner a a.readGeneration .read)).setEndpoint a.writeIndex
    (newEndpoint owner a a.writeGeneration .write)

theorem create_cases {answer : Except PipeError (ℕ × ℕ)} (h : create owner r = (answer, r')) :
    r' = r ∧ (∃ e, answer = .error e) ∨
      owner.valid ∧ ∃ a, Allocates r a ∧ answer = .ok (a.readHandle, a.writeHandle) ∧
        r' = installed r owner a := by
  unfold create at h
  split at h
  · cases h
    exact .inl ⟨rfl, _, rfl⟩
  next hval =>
  split at h
  · cases h
    exact .inl ⟨rfl, _, rfl⟩
  next a ha =>
    cases h
    refine .inr ⟨?_, a, allocates_of_allocate ha, rfl, rfl⟩
    simpa [ProcessHandle.valid, not_or] using hval

/-- A pipe whose ring was replaced; the readiness generation has advanced. -/
def PipeSlot.withRing (p : PipeSlot) (ring : Ring UInt8) : PipeSlot :=
  { p with ring := ring, readinessAdvances := p.readinessAdvances + 1 }

theorem read_cases {size : ℕ} {answer : Except PipeError (List UInt8)}
    (h : read owner handle size r = (answer, r')) :
    (r' = r ∧ ((∃ e, answer = .error e) ∨ size = 0 ∧ answer = .ok [])) ∨
      ∃ x, Resolves r owner handle x ∧ (r.endpoints x).direction = .read ∧ 0 < size ∧
        let i := (r.endpoints x).pipeIndex
        let p := r.pipes i
        (p.ring.length = 0 ∧ p.writeOpen = false ∧ answer = .ok [] ∧ r' = r) ∨
          (0 < p.ring.length ∧ answer = .ok (p.ring.popMany pipeBuf (min size p.ring.length)).1 ∧
            r' = r.setPipe i (p.withRing (p.ring.popMany pipeBuf (min size p.ring.length)).2)) := by
  unfold read at h
  split at h
  next hsize =>
    cases h
    exact .inl ⟨rfl, .inr ⟨hsize, rfl⟩⟩
  next hsize =>
  split at h
  · cases h
    exact .inl ⟨rfl, .inl ⟨_, rfl⟩⟩
  next hres =>
  obtain ⟨x, hx, rfl, rfl⟩ := resolvedEndpoint_eq_ok.mp hres
  split at h
  · cases h
    exact .inl ⟨rfl, .inl ⟨_, rfl⟩⟩
  next hdirn =>
  refine (em ((r.pipes (r.endpoints x).pipeIndex).ring.length = 0)).elim ?_ ?_
  · intro hemp
    simp only [hemp] at h
    cases hopen : (r.pipes (r.endpoints x).pipeIndex).writeOpen
    · simp only [hopen] at h
      cases h
      exact .inr ⟨x, hx, not_not.mp hdirn, Nat.pos_of_ne_zero hsize, .inl ⟨hemp, hopen, rfl, rfl⟩⟩
    · simp only [hopen] at h
      cases h
      exact .inl ⟨rfl, .inl ⟨_, rfl⟩⟩
  · intro hnonempty
    simp only [hnonempty] at h
    cases h
    exact .inr ⟨x, hx, not_not.mp hdirn, Nat.pos_of_ne_zero hsize,
      .inr ⟨Nat.pos_of_ne_zero hnonempty, rfl, rfl⟩⟩

theorem write_cases {input : List UInt8} {answer : Except PipeError ℕ}
    (h : write owner handle input r = (answer, r')) :
    (r' = r ∧ ((∃ e, answer = .error e) ∨ input = [] ∧ answer = .ok 0)) ∨
      ∃ x, Resolves r owner handle x ∧ (r.endpoints x).direction = .write ∧ input ≠ [] ∧
        let i := (r.endpoints x).pipeIndex
        let p := r.pipes i
        p.readOpen ∧ input.length ≤ pipeBuf - p.ring.length ∧ answer = .ok input.length ∧
          r' = r.setPipe i (p.withRing (p.ring.pushAll pipeBuf input)) := by
  unfold write at h
  split at h
  next hinput =>
    cases h
    exact .inl ⟨rfl, .inr ⟨List.isEmpty_iff.mp hinput, rfl⟩⟩
  next hinput =>
  split at h
  · cases h
    exact .inl ⟨rfl, .inl ⟨_, rfl⟩⟩
  split at h
  · cases h
    exact .inl ⟨rfl, .inl ⟨_, rfl⟩⟩
  next hres =>
  obtain ⟨x, hx, rfl, rfl⟩ := resolvedEndpoint_eq_ok.mp hres
  split at h
  · cases h
    exact .inl ⟨rfl, .inl ⟨_, rfl⟩⟩
  next hdirn =>
  dsimp only at h
  split at h
  · cases h
    exact .inl ⟨rfl, .inl ⟨_, rfl⟩⟩
  next hopen =>
  split at h
  · cases h
    exact .inl ⟨rfl, .inl ⟨_, rfl⟩⟩
  next hsp =>
  cases h
  refine .inr ⟨x, hx, not_not.mp hdirn, ?_, by simpa using hopen, Nat.le_of_not_lt hsp, rfl, rfl⟩
  rintro rfl
  exact hinput rfl

theorem close_cases {answer : Except PipeError Unit} (h : close owner handle r = (answer, r')) :
    (r' = r ∧ ∃ e, answer = .error e) ∨ ∃ x, Resolves r owner handle x ∧ answer = .ok () ∧
        r' = (r.setEndpoint x { r.endpoints x with occupied := false }).setPipe
          (r.endpoints x).pipeIndex
          (closeEnd (r.pipes (r.endpoints x).pipeIndex) (r.endpoints x).direction) := by
  unfold close at h
  split at h
  · cases h
    exact .inl ⟨rfl, _, rfl⟩
  next hres =>
    obtain ⟨x, hx, rfl, rfl⟩ := resolvedEndpoint_eq_ok.mp hres
    simp only [hx.decoded] at h
    cases h
    exact .inr ⟨x, hx, rfl, rfl⟩

/-- All that a call can do to the registry. -/
inductive Change (r : PipeRegistry) : PipeRegistry → Prop
  | same : Change r r
  | create {owner : ProcessHandle} {a : Allocation} (hvalid : owner.valid)
      (ha : Allocates r a) : Change r (installed r owner a)
  | ring {owner : ProcessHandle} {handle : ℕ} {x : EndpointIndex} {ring : Ring UInt8}
      (hx : Resolves r owner handle x)
      (hring : (r.pipes (r.endpoints x).pipeIndex).ring.Bounded pipeBuf → ring.Bounded pipeBuf) :
      Change r (r.setPipe (r.endpoints x).pipeIndex
        ((r.pipes (r.endpoints x).pipeIndex).withRing ring))
  | close {owner : ProcessHandle} {handle : ℕ} {x : EndpointIndex}
      (hx : Resolves r owner handle x) :
      Change r ((r.setEndpoint x { r.endpoints x with occupied := false }).setPipe
        (r.endpoints x).pipeIndex
        (closeEnd (r.pipes (r.endpoints x).pipeIndex) (r.endpoints x).direction))

theorem exec_change {β : Type} (c : PipeCall β) (r : PipeRegistry) : Change r (exec β c r).2 := by
  cases c with
  | create owner =>
    simp only [exec]
    rcases hcall : create owner r with ⟨answer, r'⟩
    obtain ⟨rfl, -⟩ | ⟨hval, a, ha, -, rfl⟩ := create_cases hcall
    · exact .same
    · exact .create hval ha
  | read owner handle size =>
    simp only [exec]
    rcases hcall : read owner handle size r with ⟨answer, r'⟩
    obtain ⟨rfl, -⟩ | ⟨x, hx, -, -, ⟨-, -, -, rfl⟩ | ⟨-, -, rfl⟩⟩ := read_cases hcall
    · exact .same
    · exact .same
    · exact .ring hx fun hb => hb.popMany _
  | write owner handle input =>
    simp only [exec]
    rcases hcall : write owner handle input r with ⟨answer, r'⟩
    obtain ⟨rfl, -⟩ | ⟨x, hx, -, -, -, hsp, -, rfl⟩ := write_cases hcall
    · exact .same
    · refine .ring hx fun hb => hb.pushAll input ?_
      have := hb.length_le
      omega
  | readiness | readinessGeneration => exact .same
  | close owner handle =>
    simp only [exec]
    rcases hcall : close owner handle r with ⟨answer, r'⟩
    obtain ⟨rfl, -⟩ | ⟨x, hx, -, rfl⟩ := close_cases hcall
    · exact .same
    · exact .close hx

/-! ### Well-formed registries -/

/-- The end of the pipe that an endpoint of the given direction holds is open. -/
def PipeSlot.isOpen (p : PipeSlot) : Direction → Bool
  | .read => p.readOpen
  | .write => p.writeOpen

/-- An endpoint belongs to the pipe `p` and holds an open end of it. -/
structure Attached (p : PipeSlot) (e : EndpointSlot) : Prop where
  occupied : p.occupied
  generation : p.generation = e.pipeGeneration
  owner : p.owner = e.owner
  isOpen : p.isOpen e.direction

/-- An occupied endpoint belongs to the pipe now in its slot, holds an open end of
it alone, and every ring has its indices in range. -/
structure WellFormed (r : PipeRegistry) : Prop where
  attached : ∀ x, (r.endpoints x).occupied →
    Attached (r.pipes (r.endpoints x).pipeIndex) (r.endpoints x)
  unique : ∀ x y, (r.endpoints x).occupied → (r.endpoints y).occupied →
    (r.endpoints x).pipeIndex = (r.endpoints y).pipeIndex →
    (r.endpoints x).direction = (r.endpoints y).direction → x = y
  ring_bounded : ∀ i, (r.pipes i).ring.Bounded pipeBuf

theorem wellFormed_new : WellFormed .new where
  attached := by simp [PipeRegistry.new, EndpointSlot.empty]
  unique := by simp [PipeRegistry.new, EndpointSlot.empty]
  ring_bounded := fun _ => Ring.bounded_empty (by decide) 0

theorem installed_endpoints (owner : ProcessHandle) (a : Allocation) (x : EndpointIndex) :
    (installed r owner a).endpoints x =
      if x = a.writeIndex then newEndpoint owner a a.writeGeneration .write
      else if x = a.readIndex then newEndpoint owner a a.readGeneration .read
      else r.endpoints x := by
  simp [installed, setEndpoint_endpoints]

theorem installed_pipes (owner : ProcessHandle) (a : Allocation) (i : Fin maximumPipes) :
    (installed r owner a).pipes i = if i = a.pipeIndex then newPipe owner a else r.pipes i := by
  simp [installed, setPipe_pipes]

/-- No endpoint belongs to the pipe slot that `allocate` chose. -/
theorem WellFormed.pipeIndex_ne (hr : WellFormed r) (ha : Allocates r a)
    (hx : (r.endpoints x).occupied) : (r.endpoints x).pipeIndex ≠ a.pipeIndex := by
  intro h
  have := (hr.attached x hx).occupied
  simp [h, ha.pipe_free] at this

/-- After `create` every occupied endpoint is one of the two new ones, or an old
one of another pipe. -/
theorem WellFormed.installed_occupied (hr : WellFormed r) (ha : Allocates r a)
    (hx : ((installed r owner a).endpoints x).occupied) :
    (x = a.writeIndex ∧
        (installed r owner a).endpoints x = newEndpoint owner a a.writeGeneration .write) ∨
      (x = a.readIndex ∧
        (installed r owner a).endpoints x = newEndpoint owner a a.readGeneration .read) ∨
      ((installed r owner a).endpoints x = r.endpoints x ∧ (r.endpoints x).occupied ∧
        (r.endpoints x).pipeIndex ≠ a.pipeIndex) := by
  rw [installed_endpoints] at hx ⊢
  split at hx
  · next hw => exact .inl ⟨hw, by rw [if_pos hw]⟩
  next hw =>
    split at hx
    · next hrd => exact .inr (.inl ⟨hrd, by rw [if_neg hw, if_pos hrd]⟩)
    next hrd => exact .inr (.inr ⟨by rw [if_neg hw, if_neg hrd], hx, hr.pipeIndex_ne ha hx⟩)

@[simp] theorem newEndpoint_pipeIndex (owner : ProcessHandle) (a : Allocation) (generation : ℕ)
    (direction : Direction) : (newEndpoint owner a generation direction).pipeIndex = a.pipeIndex :=
  rfl

theorem attached_new (owner : ProcessHandle) (a : Allocation) (generation : ℕ)
    (direction : Direction) :
    Attached (newPipe owner a) (newEndpoint owner a generation direction) :=
  ⟨rfl, rfl, rfl, by cases direction <;> rfl⟩

theorem WellFormed.installed (hr : WellFormed r) (ha : Allocates r a) :
    WellFormed (installed r owner a) := by
  refine ⟨fun x hx => ?_, fun x y hx hy hpipe hdir => ?_, fun i => ?_⟩
  · obtain ⟨-, h⟩ | ⟨-, h⟩ | ⟨h, hocc, hne⟩ := hr.installed_occupied ha hx <;>
      rw [h, installed_pipes]
    · simpa using attached_new ..
    · simpa using attached_new ..
    · rw [if_neg hne]
      exact hr.attached x hocc
  · obtain ⟨hx', h⟩ | ⟨hx', h⟩ | ⟨h, hocc, hne⟩ := hr.installed_occupied ha hx <;>
      obtain ⟨hy', h'⟩ | ⟨hy', h'⟩ | ⟨h', hocc', hne'⟩ := hr.installed_occupied ha hy <;>
      rw [h, h'] at hpipe hdir
    · exact hx'.trans hy'.symm
    · cases hdir
    · exact absurd hpipe.symm hne'
    · cases hdir
    · exact hx'.trans hy'.symm
    · exact absurd hpipe.symm hne'
    · exact absurd hpipe hne
    · exact absurd hpipe hne
    · exact hr.unique x y hocc hocc' hpipe hdir
  · rw [installed_pipes]
    split
    · exact Ring.bounded_empty (by decide) 0
    · exact hr.ring_bounded i

variable {p : PipeSlot}

theorem Attached.withRing (h : Attached p e) (ring : Ring UInt8) : Attached (p.withRing ring) e :=
  ⟨h.occupied, h.generation, h.owner, by
    have := h.isOpen
    cases hd : e.direction <;> rw [hd] at this <;> exact this⟩

/-- Closing one end leaves the endpoint of the other end attached. -/
theorem Attached.closeEnd (h : Attached p e)
    {direction : Direction} (hne : e.direction ≠ direction) :
    Attached (closeEnd p direction) e := by
  have hopen := h.isOpen
  cases direction <;> cases hd : e.direction <;>
    simp_all [LinuxPipe.closeEnd, PipeSlot.isOpen]
  all_goals exact ⟨h.occupied, h.generation, h.owner, by simp [PipeSlot.isOpen, hd]⟩

theorem bounded_closeEnd (h : p.ring.Bounded pipeBuf) (direction : Direction) :
    (closeEnd p direction).ring.Bounded pipeBuf := by
  cases direction <;> simp only [closeEnd] <;> split <;>
    first | exact h | exact Ring.bounded_empty (by decide) 0

theorem WellFormed.change (hr : WellFormed r) (h : Change r r') : WellFormed r' := by
  cases h with
  | same => exact hr
  | create _ ha => exact hr.installed ha
  | ring hx hring =>
    refine ⟨fun y hy => ?_, hr.unique, fun i => ?_⟩
    · have := hr.attached y hy
      rw [setPipe_pipes]
      split
      · next hi => exact (hi ▸ this).withRing _
      · exact this
    · rw [setPipe_pipes]
      split
      · exact hring (hr.ring_bounded _)
      · exact hr.ring_bounded i
  | @close _ _ x hx =>
    -- an endpoint that is still occupied is not the closed one, so it was there before
    have old {y : EndpointIndex} (hy : ((r.setEndpoint x
        { r.endpoints x with occupied := false }).endpoints y).occupied) :
        y ≠ x ∧ (r.endpoints y).occupied := by
      rw [setEndpoint_endpoints] at hy
      split at hy
      · cases hy
      · next hne => exact ⟨hne, hy⟩
    have same {y : EndpointIndex} (hne : y ≠ x) : (r.setEndpoint x
        { r.endpoints x with occupied := false }).endpoints y = r.endpoints y := by
      rw [setEndpoint_endpoints, if_neg hne]
    refine ⟨fun y hy => ?_, fun y z hy hz => ?_, fun i => ?_⟩
    · obtain ⟨hne, hocc⟩ := old hy
      have hatt := hr.attached y hocc
      rw [setPipe_endpoints, same hne, setPipe_pipes]
      split
      next hi =>
        refine (hi ▸ hatt).closeEnd fun hdir => hne ?_
        exact hr.unique y x hocc hx.occupied hi hdir
      · exact hatt
    · obtain ⟨hne, hocc⟩ := old hy
      obtain ⟨hne', hocc'⟩ := old hz
      simp only [setPipe_endpoints]
      rw [same hne, same hne']
      exact hr.unique y z hocc hocc'
    · rw [setPipe_pipes]
      split
      · exact bounded_closeEnd (hr.ring_bounded _) _
      · exact hr.ring_bounded i

end ArachKernel.LinuxPipe
