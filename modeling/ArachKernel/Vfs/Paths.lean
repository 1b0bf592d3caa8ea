import ArachKernel.AkashicVfs
import Mathlib.Data.List.Basic

/-!
Paths of the file system. A node below another one has its path, a slash and some more; the
parent of a path is what stands before the last slash. When a path is moved, what follows the
old part stays, and so do its validity and its parent.
-/

namespace ArachKernel.AkashicVfs

open List

variable {path parent name rest old : List UInt8}

/-- The path continues the other one with a slash. -/
def Below (parent path : List UInt8) : Prop := ∃ rest, path = parent ++ slash :: rest

theorem isDescendant_iff (h : parent ≠ rootPath) :
    isDescendant parent path ↔ Below parent path := by
  rw [isDescendant, if_neg h, Bool.and_eq_true, Bool.and_eq_true, isPrefixOf_iff_prefix, beq_iff_eq]
  constructor
  · rintro ⟨⟨_, suffix, rfl⟩, hslash⟩
    rw [getElem?_append_right le_rfl, Nat.sub_self] at hslash
    obtain ⟨rest, rfl⟩ : ∃ rest, suffix = slash :: rest := by
      cases suffix with
      | nil => cases hslash
      | cons byte rest =>
        cases hslash
        exact ⟨rest, rfl⟩
    exact ⟨rest, rfl⟩
  · rintro ⟨rest, rfl⟩
    refine ⟨⟨?_, prefix_append ..⟩, ?_⟩
    · simp
    · simp

theorem Below.trans {path' : List UInt8} (h : Below parent path) (h' : Below path path') :
    Below parent path' := by
  obtain ⟨rest, rfl⟩ := h
  obtain ⟨rest', rfl⟩ := h'
  exact ⟨rest ++ slash :: rest', by simp⟩

theorem Below.length_lt (h : Below parent path) : parent.length < path.length := by
  obtain ⟨rest, rfl⟩ := h
  simp

/-! ### Parents -/

theorem lastSlash_append (h : slash ∉ name) :
    lastSlash (parent ++ slash :: name) = some parent.length := by
  have hfind : (parent ++ slash :: name).reverse.findIdx? (· == slash) = some name.length := by
    have hrev : (parent ++ slash :: name).reverse = name.reverse ++ slash :: parent.reverse := by
      simp
    rw [hrev, findIdx?_append]
    have hnone : name.reverse.findIdx? (· == slash) = none := by
      rw [findIdx?_eq_none_iff]
      intro byte hbyte
      rw [beq_eq_false_iff_ne]
      rintro rfl
      exact h (mem_reverse.mp hbyte)
    rw [hnone, findIdx?_cons]
    simp
  rw [lastSlash, hfind, Option.map_some, length_append, length_cons]
  congr 1
  omega

/-- The parent is what stands before the last slash. -/
theorem parentPath_append (h : slash ∉ name) (hne : parent ++ slash :: name ≠ rootPath) :
    parentPath (parent ++ slash :: name) = some (if parent = [] then rootPath else parent) := by
  rw [parentPath, if_neg hne, lastSlash_append h, Option.map_some, take_left' rfl]
  simp

/-- Every path has a last slash. -/
theorem exists_lastSlash (h : slash ∈ path) :
    ∃ parent name, path = parent ++ slash :: name ∧ slash ∉ name := by
  obtain ⟨front, back, heq, hnotin⟩ := eq_append_cons_of_mem (mem_reverse.mpr h)
  refine ⟨back.reverse, front.reverse, ?_, fun hmem => hnotin (mem_reverse.mp hmem)⟩
  have hrev := congrArg reverse heq
  simpa using hrev

/-! ### Valid paths -/

/-- A component that a valid path may have. -/
def GoodName (name : List UInt8) : Prop := name ≠ [] ∧ name ≠ [0x2e] ∧ name ≠ [0x2e, 0x2e]

structure Valid (path : List UInt8) : Prop where
  length_le : path.length ≤ maximumPathBytes
  head : path.head? = some slash
  nonzero : 0 ∉ path
  utf8 : isUtf8 path
  names : path ≠ rootPath → path.getLast? ≠ some slash ∧ ∀ name ∈ path.tail.splitOn slash,
    GoodName name

theorem validatePath_eq_ok : validatePath path = .ok () ↔ Valid path := by
  have hnames : (path.tail.splitOn slash).any
      (fun component => component.isEmpty || component == [0x2e] || component == [0x2e, 0x2e]) ↔
      ¬∀ name ∈ path.tail.splitOn slash, GoodName name := by
    simp only [List.any_eq_true, GoodName, not_forall]
    refine exists_congr fun name => ?_
    simp only [Bool.or_eq_true, List.isEmpty_iff, beq_iff_eq, exists_prop]
    refine and_congr_right fun _ => ?_
    tauto
  rw [validatePath]
  split
  next hbad =>
    refine ⟨nofun, fun h => ?_⟩
    have hne : path ≠ [] := by
      rintro rfl
      cases h.head
    have := h.length_le
    have := h.head
    have := h.nonzero
    have := h.utf8
    rcases hbad with hbad | hbad | hbad | hbad | hbad
    · exact absurd (List.isEmpty_iff.mp hbad) hne
    · omega
    · contradiction
    · contradiction
    · simp_all
  next hgood =>
  simp only [not_or, not_not, Bool.not_eq_true'] at hgood
  obtain ⟨_, hlen, hhead, hzero, hutf8⟩ := hgood
  have hbase : ∀ hnames, Valid path := fun hnames =>
    ⟨by omega, hhead, hzero, by simpa using hutf8, hnames⟩
  split
  next hroot => exact ⟨fun _ => hbase fun hne => absurd hroot hne, fun _ => rfl⟩
  next hroot =>
  split
  next hlast => exact ⟨nofun, fun h => absurd hlast (h.names hroot).1⟩
  next hlast =>
  split
  next hany => exact ⟨nofun, fun h => absurd (h.names hroot).2 (hnames.mp hany)⟩
  next hany =>
    refine ⟨fun _ => hbase fun _ => ⟨hlast, ?_⟩, fun _ => rfl⟩
    by_contra hcontra
    exact hany (hnames.mpr hcontra)

theorem valid_rootPath : Valid rootPath := validatePath_eq_ok.mp (by decide)

theorem Valid.slash_mem (h : Valid path) : slash ∈ path := mem_of_mem_head? h.head

/-! ### Moving a path -/

/-- What is left of a text after a complete one is a text again. -/
theorem utf8From_append {due : List (UInt8 × UInt8)} {text more : List UInt8}
    (h : utf8From due text) : utf8From due (text ++ more) = utf8From [] more := by
  fun_induction utf8From due text with
  | case1 => rfl
  | case2 => cases h
  | case3 low high due byte bytes ih =>
    rw [Bool.and_eq_true] at h
    rw [cons_append, utf8From, h.1, Bool.true_and, ih h.2]
  | case4 => cases h
  | case5 byte bytes due hsome ih =>
    rw [cons_append, utf8From, hsome]
    exact ih h

theorem splitOn_tail (hne : parent ≠ []) :
    (parent ++ slash :: rest).tail.splitOn slash = parent.tail.splitOn slash ++
      rest.splitOn slash := by
  obtain ⟨byte, bytes, rfl⟩ := exists_cons_of_ne_nil hne
  exact splitOnP_append_cons bytes rest (beq_self_eq_true slash)

theorem Valid.ne_nil (h : Valid path) : path ≠ [] := by
  rintro rfl
  cases h.head

theorem below_ne_rootPath (hne : parent ≠ []) : parent ++ slash :: rest ≠ rootPath := by
  intro heq
  have hlen := congrArg length heq
  have hpos := length_pos_iff.mpr hne
  simp [rootPath] at hlen
  omega

/-- What follows a valid path can follow another one. -/
theorem Valid.moved {new : List UInt8} (h : Valid (old ++ slash :: rest)) (hold : Valid old)
    (hnew : Valid new) (hroot : new ≠ rootPath)
    (hlen : (new ++ slash :: rest).length ≤ maximumPathBytes) : Valid (new ++ slash :: rest) where
  length_le := hlen
  head := by
    rw [head?_append_of_ne_nil _ hnew.ne_nil]
    exact hnew.head
  nonzero hmem := by
    rcases mem_append.mp hmem with hmem | hmem
    · exact hnew.nonzero hmem
    · exact h.nonzero (mem_append_right _ hmem)
  utf8 := by
    have hrest := h.utf8
    rw [isUtf8, utf8From_append hold.utf8] at hrest
    rw [isUtf8, utf8From_append hnew.utf8]
    exact hrest
  names _ := by
    obtain ⟨hlast, hnames⟩ := h.names (below_ne_rootPath hold.ne_nil)
    rw [splitOn_tail hold.ne_nil] at hnames
    rw [splitOn_tail hnew.ne_nil]
    refine ⟨?_, fun name hname => ?_⟩
    · rw [getLast?_append_of_ne_nil _ (cons_ne_nil _ _)] at hlast ⊢
      exact hlast
    · rcases mem_append.mp hname with hname | hname
      · exact (hnew.names hroot).2 name hname
      · exact hnames name (mem_append_right _ hname)

/-- The parent of a path below `old`, and where it is after the move. -/
theorem parentPath_moved (hold : old ≠ []) (hbelow : Below old path) :
    ∃ front name, path = old ++ front ++ slash :: name ∧ slash ∉ name ∧
      (front = [] ∨ ∃ rest, front = slash :: rest) ∧ parentPath path = some (old ++ front) := by
  obtain ⟨rest, rfl⟩ := hbelow
  have hmem : slash ∈ slash :: rest := mem_cons_self
  obtain ⟨front, name, hsplit, hname⟩ := exists_lastSlash hmem
  have hne : old ++ front ≠ [] := append_ne_nil_of_left_ne_nil hold front
  refine ⟨front, name, by rw [hsplit, append_assoc], hname, ?_, ?_⟩
  · cases front with
    | nil => exact .inl rfl
    | cons byte front =>
      exact .inr ⟨front, by rw [(cons.inj hsplit).1]⟩
  · rw [hsplit, ← append_assoc, parentPath_append hname (below_ne_rootPath hne), if_neg hne]

end ArachKernel.AkashicVfs
