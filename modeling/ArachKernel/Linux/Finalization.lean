import ArachKernel.Linux.FdBackends

/-!
What finalization keeps. A nested finalization takes the last reference of one more object, so
it ends before the bound on the nesting, and keeps what its sections keep.
-/

namespace ArachKernel.LinuxFd

open Registry Kernel Table

variable {α β : Type} {r : Registry} {P : Kernel → Prop} {owner : ProcessHandle} {fd : ℕ}

theorem run_registry (c : RegistryCall β) (s : Kernel) : (KernelProg.registry c).run exec s =
    ((execRegistry β c s.registry).1, { s with
      registry := (execRegistry β c s.registry).2
      journal := s.journal.record c (execRegistry β c s.registry).1 }) := rfl

/-- The sections that finalization uses. -/
def Releasing : {β : Type} → KernelCall β → Prop
  | _, .registry (.dropKeyReference _) | _, .registry (.releaseTransfer _) => True
  | _, .epoll (.removeTarget _) | _, .epoll (.close ..) | _, .socket (.close ..) => True
  | _, .datagram (.close ..) | _, .pipe (.close ..) | _, .eventfd (.close ..) => True
  | _, .timerfd (.close ..) | _, .signalfd (.close ..) | _, .memfd (.close ..) => True
  | _, .file (.close ..) | _, .environment (.finalize _) => True
  | _, _ => False

/-- The number of objects that have references. -/
def Registry.referenced (r : Registry) : ℕ :=
  total (fun object => if object.references = 0 then 0 else 1) r.objects

theorem referenced_le (r : Registry) : r.referenced ≤ maximumOpenObjects := by
  have hone (i : ObjectIndex) (_ : i ∈ Finset.univ) :
      (if (r.objects i).references = 0 then 0 else 1) ≤ 1 := by
    split <;> decide
  exact (Finset.sum_le_card_nsmul _ _ _ hone).trans_eq
    (by rw [Finset.card_fin, smul_eq_mul, mul_one])

/-- An object whose last reference goes is taken out of the count. -/
theorem referenced_settle {i : ObjectIndex} {object : OpenObject}
    (hr : (r.objects i).references ≠ 0) :
    ((r.setObject i object).maybeTakeClosing i).2.referenced ≤ r.referenced ∧
      (((r.setObject i object).maybeTakeClosing i).1.isSome →
        ((r.setObject i object).maybeTakeClosing i).2.referenced < r.referenced) := by
  have hupdate (o : OpenObject) := total_update
    (fun object : OpenObject => if object.references = 0 then 0 else 1) r.objects i o
  rw [maybeTakeClosing]
  split
  · have htake : ((r.setObject i object).take i).referenced =
        (r.setObject i { OpenObject.empty with generation := object.generation }).referenced := by
      simp [Registry.take, setObject]
    have := hupdate { OpenObject.empty with generation := object.generation }
    simp only [if_neg hr, OpenObject.empty, if_true] at this
    rw [htake]
    simp only [Registry.referenced, setObject, OpenObject.empty]
    omega
  · have := hupdate object
    simp only [if_neg hr] at this
    simp only [Registry.referenced, setObject, Option.isSome_none, Bool.false_eq_true,
      false_implies, and_true]
    split at this <;> omega

theorem referenced_drop (key : ObjectKey) (r : Registry) :
    (r.dropKeyReferenceLocked key).2.referenced ≤ r.referenced ∧
      ((r.dropKeyReferenceLocked key).1.isSome →
        (r.dropKeyReferenceLocked key).2.referenced < r.referenced) := by
  rw [dropKeyReferenceLocked]
  split
  · simp
  next hguard => exact referenced_settle fun hzero => hguard (.inr (.inr hzero))

theorem referenced_release (token : TransferToken) (r : Registry) :
    (r.releaseTransferLocked token).2.referenced ≤ r.referenced ∧
      ((r.releaseTransferLocked token).1.1.isSome →
        (r.releaseTransferLocked token).2.referenced < r.referenced) := by
  rw [releaseTransferLocked]
  split
  · simp
  next hguard => exact referenced_settle fun hzero => hguard (.inr (.inr (.inl hzero)))

/-- `P`, and at most so many objects have references. -/
structure Few (P : Kernel → Prop) (k : ℕ) (s : Kernel) : Prop where
  kept : P s
  referenced : s.registry.referenced ≤ k

theorem Few.mono {j k : ℕ} {s : Kernel} (h : Few P j s) (hjk : j ≤ k) : Few P k s :=
  ⟨h.kept, h.referenced.trans hjk⟩

section Finalize

variable (hP : ∀ {β : Type} (c : KernelCall β) (s : Kernel), Releasing c → P s → P (exec β c s).2)
include hP

/-- A section that leaves the registry alone. -/
theorem keeps_section {k : ℕ} {c : KernelCall β} (hc : Releasing c)
    (hreg : ∀ s, (exec β c s).2.registry = s.registry) : (Prog.perform c).Keeps exec (Few P k) :=
  fun s hs => ⟨hP c s hc hs.kept, by rw [Prog.run_perform, hreg]; exact hs.referenced⟩

variable {f : FinalObject → KernelProg Unit} {k : ℕ}
  (hf : ∀ j < k, ∀ x, (f x).Keeps exec (Few P j))
include hf

theorem keeps_dropKeyReferenceWith (key : ObjectKey) :
    (dropKeyReferenceWith f key).Keeps exec (Few P k) := by
  intro s hs
  have hkept := hP (.registry (.dropKeyReference key)) s trivial hs.kept
  obtain ⟨hle, hlt⟩ := referenced_drop key s.registry
  rw [dropKeyReferenceWith, Prog.run_bind, run_registry]
  cases hpend : (s.registry.dropKeyReferenceLocked key).1 with
  | none =>
    rw [execRegistry, hpend] at *
    exact ⟨hkept, hle.trans hs.referenced⟩
  | some x =>
    have hj := (hlt (by rw [hpend]; rfl)).trans_le hs.referenced
    rw [execRegistry, hpend] at *
    exact (Prog.Keeps.bind (hf _ hj x) (fun _ => .pure) _ ⟨hkept, le_rfl⟩).mono hj.le

theorem keeps_detachEpollWatchesWith (key : ObjectKey) :
    (detachEpollWatchesWith f key).Keeps exec (Few P k) :=
  (keeps_section hP (c := .epoll (.removeTarget key)) trivial fun _ => rfl).bind fun _ =>
    .each (keeps_dropKeyReferenceWith hP hf) _

theorem keeps_settleWith {leftover : Leftover} (hpend : leftover.1.isSome → ∀ x,
    (f x).Keeps exec (Few P k)) : (settleWith f leftover).Keeps exec (Few P k) := by
  refine (Prog.Keeps.each (keeps_detachEpollWatchesWith hP hf) _).bind fun _ => ?_
  obtain ⟨_ | x, _⟩ := leftover
  · exact .pure
  · exact (hpend rfl x).bind fun _ => .pure

theorem keeps_releaseTransferWith (token : TransferToken) :
    (releaseTransferWith f token).Keeps exec (Few P k) := by
  intro s hs
  rw [releaseTransferWith]
  split
  · exact hs
  have hkept := hP (.registry (.releaseTransfer token)) s trivial hs.kept
  obtain ⟨hle, hlt⟩ := referenced_release token s.registry
  have hj := hle.trans hs.referenced
  rw [Prog.run_bind, run_registry]
  refine (keeps_settleWith hP (fun i hi => hf i (hi.trans_le hj)) (fun hsome => ?_) _
    ⟨hkept, le_rfl⟩).mono hj
  exact hf _ ((hlt hsome).trans_le hs.referenced)

theorem keeps_closeSocketWith (handle : ℕ) :
    (closeSocketWith f owner handle).Keeps exec (Few P k) := by
  exact (keeps_section hP (c := .socket (.close owner handle)) trivial fun _ => rfl).except
    (fun _ => .pure) (.each (keeps_releaseTransferWith hP hf))

theorem keeps_closeBackendWith (kind : OpenObjectKind) :
    (closeBackendWith f owner kind).Keeps exec (Few P k) := by
  cases kind with
  | empty | consoleInput | consoleOutput | consoleError => exact .pure
  | unixSocket handle => exact keeps_closeSocketWith hP hf handle
  | epoll fd =>
    exact .except (keeps_section hP (by trivial) fun _ => rfl) (fun _ => .pure)
      (.each (keeps_dropKeyReferenceWith hP hf))
  | _ => exact .bind (keeps_section hP (by trivial) fun _ => rfl) fun _ => .pure

omit hf

theorem keeps_finalizeObject {depth : ℕ} (hk : k < depth) (x : FinalObject) :
    (finalizeObject depth x).Keeps exec (Few P k) := by
  induction depth generalizing k x with
  | zero => exact absurd hk (Nat.not_lt_zero k)
  | succ depth ih =>
    refine (keeps_section hP (c := .environment (.finalize x)) trivial
      fun _ => rfl).bind fun _ => ?_
    exact keeps_closeBackendWith hP (fun j hj x => ih (hj.trans_le (Nat.le_of_lt_succ hk)) x) _

omit hP in
/-- No more objects than there are can have references. -/
theorem keeps_of_few {p : KernelProg α} (h : p.Keeps exec (Few P maximumOpenObjects)) :
    p.Keeps exec P := fun s hs => (h s ⟨hs, referenced_le s.registry⟩).kept

theorem keeps_finalize (j : ℕ) (hj : j < maximumOpenObjects + 1) (x : FinalObject) :
    (finalize x).Keeps exec (Few P j) := keeps_finalizeObject hP hj x

theorem keeps_finalizing (x : FinalObject) : (finalize x).Keeps exec P :=
  keeps_of_few (keeps_finalize hP _ (Nat.lt_succ_self _) x)

theorem keeps_nested (j : ℕ) (hj : j < maximumOpenObjects) (x : FinalObject) :
    (finalize x).Keeps exec (Few P j) := keeps_finalize hP j (Nat.lt_succ_of_lt hj) x

theorem keeps_releaseTransfers {tokens : List TransferToken} :
    (releaseTransfers tokens).Keeps exec P :=
  .each (fun token => keeps_of_few (keeps_releaseTransferWith hP (keeps_nested hP) token)) tokens

theorem keeps_dropKeyReference (key : ObjectKey) : (dropKeyReference key).Keeps exec P :=
  keeps_of_few (keeps_dropKeyReferenceWith hP (keeps_nested hP) key)

end Finalize

/-- The bound on nested finalizations is never reached. -/
theorem not_exhausted (x : FinalObject) (s : Kernel) (h : s.exhausted = false) :
    ((finalize x).run exec s).2.exhausted = false := by
  refine keeps_finalizing (P := fun s => s.exhausted = false) (fun c s hc hs => ?_) x s h
  cases c with
  | environment c => cases c <;> first | exact hs | exact hc.elim
  | _ => exact hs

end ArachKernel.LinuxFd
