import ArachKernel.Linux.Datagram

/-!
What the datagram calls do to the table of endpoints. A call that fails leaves the table
as it is; a call that succeeds replaces one slot.
-/

namespace ArachKernel.LinuxDatagram

open Table Function

variable {t : DatagramTable}

variable (slot : Endpoint) (owner : ProcessHandle)

/-- The messages that wait at an endpoint, oldest first. -/
def Endpoint.waiting : List Datagram := slot.queue.toList maximumQueueLength

/-- The handle names the endpoint in slot `i`. -/
structure Names (t : DatagramTable) (handle : ℕ) (i : EndpointIndex) : Prop where
  decoded : decode handle = some (i, (t i).generation)
  occupied : (t i).occupied

variable {handle : ℕ} {i j : EndpointIndex}

theorem Names.unique (hi : Names t handle i) (hj : Names t handle j) : i = j :=
  congrArg Prod.fst (Option.some.inj (hi.decoded.symm.trans hj.decoded))

/-- An endpoint has one handle. -/
theorem Names.handle_inj {first second : ℕ} (hfst : Names t first i)
    (hsnd : Names t second i) : first = second :=
  Handle.decode_inj hfst.decoded hsnd.decoded

/-- Another slot is replaced. -/
theorem names_update_ne {e : Endpoint} (hne : j ≠ i) :
    Names (update t i e) handle j ↔ Names t handle j := by
  constructor
  · rintro ⟨hdecd, hocc⟩
    rw [update_of_ne hne] at hdecd hocc
    exact ⟨hdecd, hocc⟩
  · rintro ⟨hdecd, hocc⟩
    constructor
    · rwa [update_of_ne hne]
    · rwa [update_of_ne hne]

theorem endpoint_eq_ok {owner : ProcessHandle} :
    endpoint owner handle t = .ok i ↔ Names t handle i ∧ (t i).owner = owner := by
  simp only [endpoint]
  split
  next hdec =>
    simp only [reduceCtorEq, false_iff]
    rintro ⟨⟨hdecd, _⟩, _⟩
    simp [hdec] at hdecd
  next hdec =>
    split
    next hinval =>
      simp only [Bool.or_eq_true, Bool.not_eq_true', bne_iff_ne] at hinval
      simp only [reduceCtorEq, false_iff]
      rintro ⟨⟨hdecd, hocc⟩, hown⟩
      rw [hdec, Option.some.injEq, Prod.mk.injEq] at hdecd
      obtain ⟨rfl, hgen⟩ := hdecd
      rcases hinval with (hfree | hold) | hforeign
      · exact Bool.noConfusion (hfree.symm.trans hocc)
      · exact hold hgen.symm
      · exact hforeign hown
    next hval =>
      simp only [Bool.or_eq_true, Bool.not_eq_true', bne_iff_ne, not_or, Bool.not_eq_false,
        not_not] at hval
      obtain ⟨⟨hocc, hgen⟩, hown⟩ := hval
      simp only [Except.ok.injEq]
      constructor
      · rintro rfl
        exact ⟨⟨by rw [hdec, hgen], hocc⟩, hown⟩
      · rintro ⟨⟨hdecd, _⟩, _⟩
        rw [hdec, Option.some.injEq, Prod.mk.injEq] at hdecd
        exact hdecd.1

/-! ### Outcomes -/

theorem nextGeneration_eq_some {current next : ℕ} (h : nextGeneration current = some next) :
    next = current + 1 ∧ next ≤ maximumEndpointGeneration := by
  rw [nextGeneration, Option.filter_eq_some_iff] at h
  exact ⟨(checkedAdd_eq_some.mp h.1).2, by simpa using h.2⟩

/-- A new endpoint. -/
def fresh (t : DatagramTable) (i : EndpointIndex) (owner : ProcessHandle) : Endpoint :=
  { Endpoint.empty with owner, generation := (t i).generation + 1 }

theorem create_cases : (∃ e, create owner t = (.error e, t)) ∨
      ∃ i handle, (t i).occupied = false ∧ owner.valid ∧
        decode handle = some (i, (t i).generation + 1) ∧
        create owner t = (.ok handle, update t i (fresh t i owner)) := by
  unfold create
  split
  · exact .inl ⟨_, rfl⟩
  next hown =>
  split
  · exact .inl ⟨_, rfl⟩
  next i hi =>
  split
  · exact .inl ⟨_, rfl⟩
  next hgen =>
  obtain ⟨rfl, hle⟩ := nextGeneration_eq_some hgen
  obtain ⟨handle, henc⟩ : ∃ handle, encode i ((t i).generation + 1) = some handle :=
    Handle.encode_isSome i.isLt (Nat.succ_pos _) hle
  obtain ⟨_, hdec⟩ := Handle.decode_encode (by decide) henc
  refine .inr ⟨i, handle, by simpa using position_some hi, ?_, hdec, ?_⟩
  · rw [not_or] at hown
    simp [ProcessHandle.valid, hown.1, hown.2]
  · simp only [henc]
    rfl

theorem bind_cases (handle : ℕ) (address : UnixAddress) :
    (∃ e, bind owner handle address t = (.error e, t)) ∨
      ∃ i, Names t handle i ∧ (t i).bound = false ∧ findBound address t = none ∧
        bind owner handle address t = (.ok (), update t i { t i with address, bound := true }) := by
  unfold bind
  split
  · exact .inl ⟨_, rfl⟩
  split
  · exact .inl ⟨_, rfl⟩
  next i hendp =>
  split
  · exact .inl ⟨_, rfl⟩
  next hbd =>
  split
  · exact .inl ⟨_, rfl⟩
  next hnone =>
  exact .inr ⟨i, (endpoint_eq_ok.mp hendp).1, by simpa using hbd, hnone, rfl⟩

/-- The endpoint with one more message. -/
def Endpoint.delivered (target : Endpoint) (d : Datagram) : Endpoint :=
  { target with
    queue := target.queue.push maximumQueueLength d
    readinessAdvances :=
      if target.queue.length = 0 then target.readinessAdvances + 1 else target.readinessAdvances }

/-- The address that a message from the endpoint carries. -/
def Endpoint.senderAddress : UnixAddress :=
  if slot.bound then slot.address else .unnamed

theorem send_cases (handle : ℕ) (destination : UnixAddress) (input : List UInt8) (flags : Flags) :
    (∃ e, send owner handle destination input flags t = (.error e, t)) ∨
      ∃ i k, Names t handle i ∧ findBound destination t = some k ∧
        (t k).queue.length < maximumQueueLength ∧
        send owner handle destination input flags t = (.ok input.length, update t k
            ((t k).delivered
              { sender := owner, senderAddress := (t i).senderAddress, bytes := input })) := by
  unfold send
  split
  · exact .inl ⟨_, rfl⟩
  split
  · exact .inl ⟨_, rfl⟩
  next i hendp =>
  dsimp only
  split
  · exact .inl ⟨_, rfl⟩
  split
  · exact .inl ⟨_, rfl⟩
  next k hk =>
  split
  · exact .inl ⟨_, rfl⟩
  next hroom =>
  exact .inr ⟨i, k, (endpoint_eq_ok.mp hendp).1, hk, not_le.mp hroom, rfl⟩

/-- What a receive into a buffer of `size` bytes shows of a message. -/
def Datagram.view (d : Datagram) (size : ℕ) : ReceivedDatagram where
  bytes := d.bytes.take size
  sender := d.sender
  senderAddress := d.senderAddress
  truncated := decide (min d.bytes.length size < d.bytes.length)

/-- The endpoint without its first message. -/
def Endpoint.consumed : Endpoint :=
  { slot with
    queue := (slot.queue.popMany maximumQueueLength 1).2
    readinessAdvances :=
      if (slot.queue.popMany maximumQueueLength 1).2.length = 0 then slot.readinessAdvances + 1
      else slot.readinessAdvances }

theorem receive_cases (handle size : ℕ) (flags : Flags) :
    (∃ e, receive owner handle size flags t = (.error e, t)) ∨
      ∃ i, Names t handle i ∧ (t i).queue.length ≠ 0 ∧ receive owner handle size flags t =
          (.ok (((t i).queue.cells (t i).queue.head).view size),
            if flags &&& msgPeek ≠ 0 then t else update t i (t i).consumed) := by
  unfold receive
  split
  · exact .inl ⟨_, rfl⟩
  split
  · exact .inl ⟨_, rfl⟩
  next i hendp =>
  dsimp only
  split
  · exact .inl ⟨_, rfl⟩
  next hlen =>
  refine .inr ⟨i, (endpoint_eq_ok.mp hendp).1, hlen, ?_⟩
  split
  · rfl
  · rfl

/-- The slot after its endpoint is closed. -/
def Endpoint.closed : Endpoint :=
  { Endpoint.empty with generation := slot.generation }

theorem close_cases (handle : ℕ) : (∃ e, close owner handle t = (.error e, t)) ∨
      ∃ i, Names t handle i ∧ close owner handle t = (.ok (), update t i (t i).closed) := by
  unfold close
  split
  · exact .inl ⟨_, rfl⟩
  next i hendp =>
  exact .inr ⟨i, (endpoint_eq_ok.mp hendp).1, rfl⟩

theorem setPasscred_cases (handle : ℕ) (enabled : Bool) :
    (∃ e, setPasscred owner handle enabled t = (.error e, t)) ∨
      ∃ i, Names t handle i ∧ setPasscred owner handle enabled t =
        (.ok (), update t i { t i with passcred := enabled }) := by
  unfold setPasscred
  split
  · exact .inl ⟨_, rfl⟩
  next i hendp =>
  exact .inr ⟨i, (endpoint_eq_ok.mp hendp).1, rfl⟩

theorem findBound_eq_some {address : UnixAddress} {k : EndpointIndex}
    (h : findBound address t = some k) :
    (t k).occupied ∧ (t k).bound ∧ (t k).address = address := by
  have hk := position_some h
  simp only [Bool.and_eq_true, beq_iff_eq] at hk
  exact ⟨hk.1.1, hk.1.2, hk.2⟩

end ArachKernel.LinuxDatagram
