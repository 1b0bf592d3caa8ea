import ArachKernel.Linux.PipeSteps

/-!
Pipes refine bounded FIFO byte queues. A pipe is identified by its slot and the
generation of the slot. Each call is observed together with the bytes that the
pipe has accepted and returned so far; the contents of the ring are what has been
accepted and not yet returned.
-/

namespace ArachKernel.LinuxPipe

open Function List

abbrev PipeId := Fin maximumPipes × ℕ

/-- The bytes that have entered and left each pipe. -/
structure History where
  accepted : PipeId → List UInt8
  returned : PipeId → List UInt8

namespace History

def empty : History := { accepted := fun _ => [], returned := fun _ => [] }

def accept (H : History) (pipe : PipeId) (bytes : List UInt8) : History :=
  { H with accepted := Function.update H.accepted pipe (H.accepted pipe ++ bytes) }

def deliver (H : History) (pipe : PipeId) (bytes : List UInt8) : History :=
  { H with returned := Function.update H.returned pipe (H.returned pipe ++ bytes) }

@[simp] theorem deliver_returned (H : History) (pipe : PipeId) (bytes : List UInt8) :
    (H.deliver pipe bytes).returned = update H.returned pipe (H.returned pipe ++ bytes) := rfl

@[simp] theorem accept_returned (H : History) (pipe : PipeId) (bytes : List UInt8) :
    (H.accept pipe bytes).returned = H.returned := rfl

@[simp] theorem accept_accepted (H : History) (pipe : PipeId) (bytes : List UInt8) :
    (H.accept pipe bytes).accepted = update H.accepted pipe (H.accepted pipe ++ bytes) := rfl

/-- Log the bytes a call moved, under the pipe its handle named. -/
def record (r : PipeRegistry) (H : History) : {β : Type} → PipeCall β → β → History
  | _, .read owner handle _, .ok bytes =>
    match resolvedEndpoint r owner handle with
    | .ok (_, e) => H.deliver e.pipe bytes
    | .error _ => H
  | _, .write owner handle input, .ok n =>
    match resolvedEndpoint r owner handle with
    | .ok (_, e) => H.accept e.pipe (input.take n)
    | .error _ => H
  | _, _, _ => H

end History

/-- Execute a call and log what it moved. -/
def observed : Handler PipeCall (PipeRegistry × History) := fun β c s =>
  ((exec β c s.1).1, (exec β c s.1).2, s.2.record s.1 c (exec β c s.1).1)

/-! ### Endpoints across calls -/

/-- Endpoint slots only move on to later generations, and an endpoint that is
still occupied at the same generation is unchanged. -/
def Later (r r' : PipeRegistry) : Prop :=
  ∀ x, (r.endpoints x).generation ≤ (r'.endpoints x).generation ∧
    ((r'.endpoints x).generation = (r.endpoints x).generation →
      (r'.endpoints x).occupied → r'.endpoints x = r.endpoints x)

theorem Later.refl (r : PipeRegistry) : Later r r := fun _ => ⟨le_rfl, fun _ _ => rfl⟩

theorem Later.trans {r s t : PipeRegistry} (hrs : Later r s) (hst : Later s t) : Later r t := by
  intro x
  refine ⟨(hrs x).1.trans (hst x).1, fun hgen hocc => ?_⟩
  have hle := (hrs x).1
  have hle' := (hst x).1
  have hback := (hst x).2 (by omega) hocc
  rw [hback]
  exact (hrs x).2 (by omega) (hback ▸ hocc)

variable {r r' : PipeRegistry} {s : PipeRegistry × History}

theorem Change.later (h : Change r r') : Later r r' := by
  cases h with
  | same | ring => exact Later.refl r
  | create _ ha =>
    intro x
    rw [installed_endpoints]
    split
    next hx =>
      have := ha.write_generation
      simp only [newEndpoint, hx]
      exact ⟨by omega, by omega⟩
    split
    next hx =>
      have := ha.read_generation
      simp only [newEndpoint, hx]
      exact ⟨by omega, by omega⟩
    · exact ⟨le_rfl, fun _ _ => rfl⟩
  | close =>
    intro x
    rw [setPipe_endpoints, setEndpoint_endpoints]
    split
    · next hx => exact ⟨by rw [hx], fun _ hocc => absurd hocc (by simp)⟩
    · exact ⟨le_rfl, fun _ _ => rfl⟩

theorem later_of_reachable {t : PipeRegistry × History} (h : Reachable observed s t) :
    Later s.1 t.1 :=
  h.invariant (P := fun t => Later s.1 t.1) (Later.refl _) fun c _ ih =>
    ih.trans (exec_change c _).later

variable {handle : ℕ}

/-- A handle that resolves twice names the same endpoint of the same pipe. -/
theorem Later.resolves (h : Later r r') {owner owner' : ProcessHandle} {x y : EndpointIndex}
    (hx : Resolves r owner handle x) (hy : Resolves r' owner' handle y) :
    r'.endpoints y = r.endpoints x := by
  have hsame := hx.decoded.symm.trans hy.decoded
  rw [Option.some.injEq, Prod.mk.injEq] at hsame
  obtain ⟨rfl, hgen⟩ := hsame
  exact (h x).2 hgen.symm hy.occupied

/-! ### The byte streams -/

/-- The logged streams agree with the rings. -/
structure Streams (r : PipeRegistry) (H : History) : Prop where
  wellFormed : WellFormed r
  contents : ∀ i, (r.pipes i).occupied → H.accepted (i, (r.pipes i).generation) =
      H.returned (i, (r.pipes i).generation) ++ (r.pipes i).ring.toList pipeBuf
  returned_prefix : ∀ pipe, H.returned pipe <+: H.accepted pipe
  fresh : ∀ i generation, (r.pipes i).generation < generation →
    H.accepted (i, generation) = [] ∧ H.returned (i, generation) = []

theorem streams_new : Streams .new .empty where
  wellFormed := wellFormed_new
  contents := fun _ _ => rfl
  returned_prefix := fun _ => prefix_rfl
  fresh := fun _ _ _ => ⟨rfl, rfl⟩

variable {r : PipeRegistry} {owner : ProcessHandle} {H : History}

theorem Streams.installed (hs : Streams r H) {a : Allocation} (ha : Allocates r a) :
    Streams (installed r owner a) H where
  wellFormed := hs.wellFormed.installed ha
  contents := by
    intro i hi
    simp only [installed_pipes] at hi ⊢
    split
    next h =>
      -- the new pipe's generation was never used
      obtain ⟨hacc, hret⟩ := hs.fresh i a.pipeGeneration (by
        rw [ha.pipe_generation, h]
        exact Nat.lt_succ_self _)
      simp only [newPipe, Ring.toList_empty, append_nil]
      exact hacc.trans hret.symm
    · next h => exact hs.contents i (by simpa [h] using hi)
  returned_prefix := hs.returned_prefix
  fresh := by
    intro i generation hgen
    refine hs.fresh i generation ?_
    simp only [installed_pipes] at hgen
    split at hgen
    next h =>
      have := ha.pipe_generation
      rw [← h] at this
      simp only [newPipe] at hgen
      omega
    · exact hgen

/-- One pipe moved its stream on: bytes entered or left, and the ring says which. -/
theorem Streams.move {H' : History} (hs : Streams r H)
    {i : Fin maximumPipes} (hi : (r.pipes i).occupied) {ring : Ring UInt8}
    (hwf : WellFormed (r.setPipe i ((r.pipes i).withRing ring)))
    (hoth : ∀ pipe, pipe ≠ (i, (r.pipes i).generation) →
      H'.accepted pipe = H.accepted pipe ∧ H'.returned pipe = H.returned pipe)
    (hctnt : H'.accepted (i, (r.pipes i).generation) =
      H'.returned (i, (r.pipes i).generation) ++ ring.toList pipeBuf) :
    Streams (r.setPipe i ((r.pipes i).withRing ring)) H' where
  wellFormed := hwf
  contents := by
    intro j hj
    simp only [setPipe_pipes] at hj ⊢
    split
    next h =>
      subst h
      exact hctnt
    next h =>
    rw [if_neg h] at hj
    obtain ⟨hacc, hret⟩ := hoth (j, (r.pipes j).generation) fun heq =>
      h (Prod.mk.injEq .. ▸ heq).1
    rw [hacc, hret]
    exact hs.contents j hj
  returned_prefix := by
    intro pipe
    by_cases h : pipe = (i, (r.pipes i).generation)
    · rw [h, hctnt]
      exact prefix_append _ _
    · rw [(hoth pipe h).1, (hoth pipe h).2]
      exact hs.returned_prefix pipe
  fresh := by
    intro j generation hgen
    have hgen' : (r.pipes j).generation < generation := by
      simp only [setPipe_pipes] at hgen
      split at hgen
      · next h => exact h ▸ hgen
      · exact hgen
    obtain ⟨hacc, hret⟩ := hoth (j, generation) (by
      rintro heq
      obtain ⟨rfl, rfl⟩ := Prod.mk.injEq .. ▸ heq
      exact absurd hgen' (lt_irrefl _))
    rw [hacc, hret]
    exact hs.fresh j generation hgen'

variable {x : EndpointIndex}

theorem Streams.close (hs : Streams r H) (hx : Resolves r owner handle x) :
    Streams ((r.setEndpoint x { r.endpoints x with occupied := false }).setPipe
      (r.endpoints x).pipeIndex
      (closeEnd (r.pipes (r.endpoints x).pipeIndex) (r.endpoints x).direction)) H := by
  have hgen (p : PipeSlot) (d : Direction) : (closeEnd p d).generation = p.generation := by
    cases d <;> simp only [closeEnd] <;> split <;> rfl
  -- a pipe that survives the close keeps its ring
  have hring (p : PipeSlot) (d : Direction) (h : (closeEnd p d).occupied) :
      p.occupied ∧ (closeEnd p d).ring = p.ring := by
    cases d <;> simp only [closeEnd] at h ⊢ <;> split at h <;> simp_all
  refine ⟨hs.wellFormed.change (.close hx), fun i hi => ?_, hs.returned_prefix, fun i g hg => ?_⟩
  · simp only [setPipe_pipes] at hi ⊢
    split
    next h =>
      rw [if_pos h] at hi
      obtain ⟨hocc, hsame⟩ := hring _ _ hi
      rw [hgen, hsame, h]
      exact hs.contents _ hocc
    next h =>
      rw [if_neg h] at hi
      exact hs.contents i hi
  · refine hs.fresh i g ?_
    simp only [setPipe_pipes] at hg
    split at hg
    next h =>
      rw [hgen, ← h] at hg
      exact hg
    · exact hg

theorem resolvedEndpoint_of_resolves (hx : Resolves r owner handle x) :
    resolvedEndpoint r owner handle = .ok ((r.endpoints x).pipeIndex, r.endpoints x) :=
  resolvedEndpoint_eq_ok.mpr ⟨x, hx, rfl, rfl⟩

/-- A handle of `owner` names the pipe that is in the endpoint's pipe slot now. -/
theorem Resolves.pipe_eq (hx : Resolves r owner handle x) : (r.endpoints x).pipe =
      ((r.endpoints x).pipeIndex, (r.pipes (r.endpoints x).pipeIndex).generation) := by
  rw [EndpointSlot.pipe, hx.pipe_generation]

/-- A call that moves no bytes logs nothing. -/
theorem record_read_nil (r : PipeRegistry) (H : History) (owner : ProcessHandle)
    (handle size : ℕ) : H.record r (.read owner handle size) (.ok []) = H := by
  simp only [History.record]
  split
  · simp [History.deliver]
  · rfl

theorem Streams.read (hs : Streams r H) (owner : ProcessHandle) (handle size : ℕ) :
    Streams (observed _ (.read owner handle size) (r, H)).2.1
      (observed _ (.read owner handle size) (r, H)).2.2 := by
  simp only [observed, exec]
  rcases hcall : LinuxPipe.read owner handle size r with ⟨answer, r'⟩
  obtain ⟨rfl, ⟨e, rfl⟩ | ⟨-, rfl⟩⟩ | ⟨x, hx, -, -, ⟨-, -, rfl, rfl⟩ | ⟨-, rfl, rfl⟩⟩ :=
    read_cases hcall
  · exact hs
  · simpa only [record_read_nil] using hs
  · simpa only [record_read_nil] using hs
  · have hring := hs.wellFormed.ring_bounded (r.endpoints x).pipeIndex
    have hctnt := hs.contents _ hx.pipe_occupied
    simp only [History.record, resolvedEndpoint_of_resolves hx]
    refine hs.move hx.pipe_occupied (hs.wellFormed.change (.ring hx fun hb => hb.popMany _))
      (fun pipe hne => ⟨rfl, ?_⟩) ?_
    · rw [History.deliver_returned, hx.pipe_eq, update_of_ne hne]
    · rw [History.deliver_returned, hx.pipe_eq, update_self, append_assoc,
        Ring.popMany_fst hring.head_lt (Nat.min_le_right _ _),
        Ring.popMany_toList hring.head_lt (Nat.min_le_right _ _), take_append_drop]
      exact hctnt

theorem Streams.write (hs : Streams r H) (owner : ProcessHandle) (handle : ℕ) (input : List UInt8) :
    Streams (observed _ (.write owner handle input) (r, H)).2.1
      (observed _ (.write owner handle input) (r, H)).2.2 := by
  simp only [observed, exec]
  rcases hcall : LinuxPipe.write owner handle input r with ⟨answer, r'⟩
  obtain ⟨rfl, ⟨e, rfl⟩ | ⟨rfl, rfl⟩⟩ | ⟨x, hx, -, -, -, hsp, rfl, rfl⟩ := write_cases hcall
  · exact hs
  · have hsame : H.record r' (.write owner handle []) (.ok 0) = H := by
      simp only [History.record, take_nil]
      split
      · simp [History.accept]
      · rfl
    simpa only [hsame] using hs
  · have hring := hs.wellFormed.ring_bounded (r.endpoints x).pipeIndex
    have hroom : (r.pipes (r.endpoints x).pipeIndex).ring.length + input.length ≤ pipeBuf := by
      have := hring.length_le
      omega
    have hctnt := hs.contents _ hx.pipe_occupied
    simp only [History.record, resolvedEndpoint_of_resolves hx, take_length]
    refine hs.move hx.pipe_occupied
      (hs.wellFormed.change (.ring hx fun hb => hb.pushAll input hroom))
      (fun pipe hne => ⟨?_, rfl⟩) ?_
    · rw [History.accept_accepted, hx.pipe_eq, update_of_ne hne]
    · rw [History.accept_accepted, History.accept_returned, hx.pipe_eq, update_self,
        Ring.toList_pushAll input hroom, ← append_assoc, hctnt]

theorem Streams.step {β : Type} (c : PipeCall β)
    (hs : Streams s.1 s.2) : Streams (observed β c s).2.1 (observed β c s).2.2 := by
  obtain ⟨r, H⟩ := s
  cases c with
  | create owner =>
    simp only [observed, exec]
    rcases hcall : create owner r with ⟨answer, r'⟩
    obtain ⟨rfl, e, rfl⟩ | ⟨-, a, ha, rfl, rfl⟩ := create_cases hcall
    · exact hs
    · exact hs.installed ha
  | read owner handle size => exact hs.read owner handle size
  | write owner handle input => exact hs.write owner handle input
  | readiness | readinessGeneration => exact hs
  | close owner handle =>
    simp only [observed, exec]
    rcases hcall : LinuxPipe.close owner handle r with ⟨answer, r'⟩
    obtain ⟨rfl, e, rfl⟩ | ⟨x, hx, rfl, rfl⟩ := close_cases hcall
    · exact hs
    · exact hs.close hx

theorem streams_of_reachable (h : Reachable observed (.new, .empty) s) : Streams s.1 s.2 :=
  h.invariant (P := fun s => Streams s.1 s.2) streams_new fun c _ => Streams.step c

/-! ### The refinement -/

/-- No endpoint that could still write to the pipe is open. -/
def writerClosed (r : PipeRegistry) (pipe : PipeId) : Prop :=
  ∀ x, (r.endpoints x).occupied → (r.endpoints x).direction = .write → (r.endpoints x).pipe ≠ pipe

/-- A write is taken whole or refused without effect. -/
theorem Streams.write_atomic (hs : Streams r H) {input : List UInt8} {answer : Except PipeError ℕ}
    (hcall : LinuxPipe.write owner handle input r = (answer, r')) :
    ((∃ e, answer = .error e) ∧ r' = r) ∨
      answer = .ok input.length ∧ ∀ i e, resolvedEndpoint r owner handle = .ok (i, e) →
        (r'.pipes i).ring.toList pipeBuf = (r.pipes i).ring.toList pipeBuf ++ input := by
  obtain ⟨rfl, herr | ⟨rfl, rfl⟩⟩ | ⟨x, hx, -, -, -, hsp, rfl, rfl⟩ := write_cases hcall
  · exact .inl ⟨herr, rfl⟩
  · exact .inr ⟨rfl, fun i e _ => by simp⟩
  · refine .inr ⟨rfl, fun i e hres => ?_⟩
    rw [resolvedEndpoint_of_resolves hx] at hres
    cases hres
    have := (hs.wellFormed.ring_bounded (r.endpoints x).pipeIndex).length_le
    rw [setPipe_pipes, if_pos rfl]
    exact Ring.toList_pushAll input (by omega)

/-- End of file means that the writer is gone and nothing is left to read. -/
theorem Streams.read_eof (hs : Streams r H) {size : ℕ} (hsize : 0 < size)
    (hcall : (LinuxPipe.read owner handle size r).1 = .ok []) :
    ∃ i e, resolvedEndpoint r owner handle = .ok (i, e) ∧ writerClosed r e.pipe ∧
      H.returned e.pipe = H.accepted e.pipe := by
  rcases hread : LinuxPipe.read owner handle size r with ⟨answer, r'⟩
  rw [hread] at hcall
  cases hcall
  obtain ⟨-, ⟨e, he⟩ | ⟨hzero, -⟩⟩ | ⟨x, hx, -, -, ⟨hemp, hclosed, -⟩ | ⟨hpos, hbytes, -⟩⟩ :=
    read_cases hread
  · cases he
  · omega
  · refine ⟨_, _, resolvedEndpoint_of_resolves hx, fun y hocc hdir hpipe => ?_, ?_⟩
    · have hopen := (hs.wellFormed.attached y hocc).isOpen
      have hidx : (r.endpoints y).pipeIndex = (r.endpoints x).pipeIndex :=
        congrArg Prod.fst hpipe
      simp [hdir, hidx, PipeSlot.isOpen, hclosed] at hopen
    · have hnil : (r.pipes (r.endpoints x).pipeIndex).ring.toList pipeBuf = [] :=
        eq_nil_of_length_eq_zero ((Ring.length_toList _).trans hemp)
      have hctnt := hs.contents _ hx.pipe_occupied
      rw [hnil, append_nil] at hctnt
      rw [hx.pipe_eq]
      exact hctnt.symm
  · -- a non-empty pipe hands out at least one byte
    have hring := hs.wellFormed.ring_bounded (r.endpoints x).pipeIndex
    have hlen := congrArg length (Except.ok.inj hbytes)
    rw [Ring.popMany_fst hring.head_lt (Nat.min_le_right _ _), length_take,
      Ring.length_toList, length_nil] at hlen
    omega

/-- After any calls with any arguments: what the reads on a pipe returned is a
prefix of what its writes accepted; a write of at most `PIPE_BUF` bytes is taken
whole or not at all; a read reports end of file only when the writer is closed and
every accepted byte was read; the ring indices are in range; and a handle never
comes to name another pipe. -/
theorem pipes_refine_fifo {s : PipeRegistry × History} (hs : Reachable observed (.new, .empty) s) :
    (∀ pipe, s.2.returned pipe <+: s.2.accepted pipe) ∧
    (∀ owner handle input answer r', input.length ≤ pipeBuf →
      write owner handle input s.1 = (answer, r') →
      ((∃ e, answer = .error e) ∧ r' = s.1) ∨
        answer = .ok input.length ∧ ∀ i e, resolvedEndpoint s.1 owner handle = .ok (i, e) →
          (r'.pipes i).ring.toList pipeBuf = (s.1.pipes i).ring.toList pipeBuf ++ input) ∧
    (∀ owner handle size, 0 < size → (read owner handle size s.1).1 = .ok [] →
      ∃ i e, resolvedEndpoint s.1 owner handle = .ok (i, e) ∧ writerClosed s.1 e.pipe ∧
        s.2.returned e.pipe = s.2.accepted e.pipe) ∧
    (∀ i, (s.1.pipes i).ring.head < pipeBuf ∧ (s.1.pipes i).ring.length ≤ pipeBuf) ∧
    (∀ t, Reachable observed s t → ∀ owner owner' handle i e i' e',
      resolvedEndpoint s.1 owner handle = .ok (i, e) →
      resolvedEndpoint t.1 owner' handle = .ok (i', e') → e'.pipe = e.pipe) := by
  have hstreams := streams_of_reachable hs
  refine ⟨hstreams.returned_prefix, ?_, ?_, fun i => ?_, ?_⟩
  · intro owner handle input answer r' _ hcall
    exact hstreams.write_atomic hcall
  · intro owner handle size hsize hcall
    exact hstreams.read_eof hsize hcall
  · have := hstreams.wellFormed.ring_bounded i
    exact ⟨this.head_lt, this.length_le⟩
  · intro t ht owner owner' handle i e i' e' hfst hsnd
    obtain ⟨x, hx, rfl, -⟩ := resolvedEndpoint_eq_ok.mp hfst
    obtain ⟨y, hy, rfl, -⟩ := resolvedEndpoint_eq_ok.mp hsnd
    rw [(later_of_reachable ht).resolves hx hy]

/-- Two bytes written to a new pipe and one of them read back. -/
theorem pipes_refine_fifo_short_run :
    let owner : ProcessHandle := ⟨7, 1⟩
    let s₁ := (observed _ (.create owner) (.new, .empty)).2
    let s₂ := (observed _ (.write owner 258 [5, 9]) s₁).2
    let s₃ := (observed _ (.read owner 257 1) s₂).2
    s₃.2.accepted (0, 1) = [5, 9] ∧ s₃.2.returned (0, 1) = [5] ∧
      s₃.2.returned (0, 1) <+: s₃.2.accepted (0, 1) := by
  refine ⟨by decide +kernel, by decide +kernel, ?_⟩
  exact (pipes_refine_fifo (.step _ (.step _ (.step _ .start)))).1 (0, 1)

end ArachKernel.LinuxPipe
