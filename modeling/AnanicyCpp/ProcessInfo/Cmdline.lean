import AnanicyCpp.ProcessInfo.Command

/-!
# The command line of a process

`get_cmdline_from_pid` with its positions. The kernel puts a NUL behind every argument, and the loop
takes the pieces between NULs, but the text that it goes over has been read with `std::getline`,
which ends at the first line feed.

## Main definitions

* `ProcessInfo.argumentsFrom`, `ProcessInfo.cmdlineArguments` : the loop, and the function.
* `ProcessInfo.encodeArguments` : what the kernel writes.

## Main results

* `ProcessInfo.argumentsFrom_eq` : the loop takes the segments behind its position.
* `ProcessInfo.cmdlineArguments_eq` : the function is the one that the name of a process rests on.
* `ProcessInfo.cmdline_exact_iff` : when all segments are taken.
-/

namespace AnanicyCpp

namespace ProcessInfo

open Text

/-- `value.substr(start, end - start)`; `none` is `npos`. -/
def substr (value : Text) (startPos : ℕ) : Option ℕ → Text
  | some endPos => (value.drop startPos).take (endPos - startPos)
  | none => value.drop startPos

/-- The second search of a turn finds a place behind the first one. -/
theorem lt_of_findFrom {value : Text} {pos startPos endPos : ℕ}
    (hstart : findFrom (· != nul) value pos = some startPos)
    (hend : findFrom (· == nul) value startPos = some endPos) :
    pos < endPos ∧ pos < value.length := by
  obtain ⟨before, c, rest, hdrop, rfl, -, hc⟩ := findFrom_eq_some hstart
  obtain ⟨argument, d, after, hdrop', rfl, -, hd⟩ := findFrom_eq_some hend
  have hlength : value.length - pos = before.length + (rest.length + 1) := by
    rw [← List.length_drop, hdrop, List.length_append, List.length_cons]
  have hne : argument ≠ [] := by
    rintro rfl
    rw [← List.drop_drop, hdrop, List.drop_left, List.nil_append] at hdrop'
    obtain ⟨rfl, -⟩ := List.cons.inj hdrop'
    exact absurd hd (by simpa using hc)
  have hpos := List.length_pos_iff.mpr hne
  omega

/-- The loop of `get_cmdline_from_pid`, from the value that `end_pos` has. -/
def argumentsFrom (value : Text) (endPos : Option ℕ) : List Text :=
  match _hstart : endPos.bind (findFrom (· != nul) value) with
  | none => []
  | some startPos =>
    let endPos := findFrom (· == nul) value startPos
    substr value startPos endPos :: argumentsFrom value endPos
termination_by endPos.elim 0 fun pos => value.length - pos + 1
decreasing_by
  obtain ⟨pos, rfl, hstart⟩ := Option.bind_eq_some_iff.mp _hstart
  cases hend : findFrom (· == nul) value startPos with
  | none => exact Nat.succ_pos _
  | some endPos =>
    obtain ⟨hlt, hlength⟩ := lt_of_findFrom hstart hend
    change value.length - endPos + 1 < value.length - pos + 1
    omega

/-- `get_cmdline_from_pid` -/
def cmdlineArguments (cmdline : Option Text) : List Text :=
  argumentsFrom (InputStream.firstLine cmdline) (some 0)

/-- What the kernel writes for a list of arguments. -/
def encodeArguments (arguments : List Text) : Text := arguments.flatMap (· ++ [nul])

/-! ### The loop -/

/-- One turn takes the text up to the next NUL. -/
theorem substr_eq_takeWhile {value : Text} {startPos : ℕ} {endPos : Option ℕ}
    (h : findFrom (· == nul) value startPos = endPos) :
    substr value startPos endPos = (value.drop startPos).takeWhile (· != nul) ∧
    (value.drop startPos).dropWhile (· != nul) = endPos.elim [] (value.drop ·) := by
  cases endPos with
  | none =>
    have hall : ∀ c ∈ value.drop startPos, (c != nul) = true := fun c hc => by
      simpa using findFrom_eq_none h c hc
    exact ⟨(List.takeWhile_eq_self_iff.mpr hall).symm, List.dropWhile_eq_nil_iff.mpr hall⟩
  | some endPos =>
    obtain ⟨argument, d, after, hdrop, rfl, hargument, hd⟩ := findFrom_eq_some h
    have hnul : nul ∉ argument := fun hmem => absurd (hargument nul hmem) (by decide)
    obtain rfl : d = nul := beq_iff_eq.mp hd
    have hend : value.drop (startPos + argument.length) = nul :: after := by
      rw [← List.drop_drop, hdrop, List.drop_left]
    rw [substr, Option.elim_some, hend, hdrop, Nat.add_sub_cancel_left, List.take_left,
      takeWhile_bne_append_cons hnul, dropWhile_bne_append_cons hnul]
    exact ⟨rfl, rfl⟩

/-- The loop takes the segments of what is left. -/
theorem argumentsFrom_eq (value : Text) (endPos : Option ℕ) :
    argumentsFrom value endPos = endPos.elim [] fun pos => segments (value.drop pos) := by
  fun_induction argumentsFrom value endPos with
  | case1 endPos hstart =>
    cases endPos with
    | none => rfl
    | some pos =>
      have hnul := findFrom_eq_none (Option.bind_some .. ▸ hstart)
      have hdrop : (value.drop pos).dropWhile (· == nul) = [] :=
        List.dropWhile_eq_nil_iff.mpr fun c hc => by simpa using hnul c hc
      rw [Option.elim_some, ← segments_dropWhile_nul, hdrop]
      rfl
  | case2 endPos startPos hstart endPos' ih =>
    obtain ⟨pos, rfl, hfind⟩ := Option.bind_eq_some_iff.mp hstart
    obtain ⟨before, c, rest, hdrop, rfl, hbefore, hc⟩ := findFrom_eq_some hfind
    have hnul : ∀ d ∈ before, (d == nul) = true := fun d hd => by simpa using hbefore d hd
    have hne : c ≠ nul := by simpa using hc
    have hstart : value.drop (pos + before.length) = c :: rest := by
      rw [← List.drop_drop, hdrop, List.drop_left]
    have hskip : segments (value.drop pos) = segments (c :: rest) := by
      rw [← segments_dropWhile_nul, hdrop, List.dropWhile_append_of_pos hnul,
        List.dropWhile_cons_of_neg (by simpa using hne)]
    obtain ⟨htake, hrest⟩ := @substr_eq_takeWhile value _ endPos' rfl
    rw [ih, Option.elim_some, hskip, segments_cons hne, htake, ← hstart, hrest]
    cases endPos' <;> rfl

theorem cmdlineArguments_eq (cmdline : Option Text) :
    cmdlineArguments cmdline = getCmdlineFromPid cmdline := by
  rw [cmdlineArguments, argumentsFrom_eq, getCmdlineFromPid, splitArguments_eq]
  rfl

/-! ### The line feed -/

theorem segments_append_nul {argument : Text} (hne : argument ≠ []) (hnul : nul ∉ argument)
    (rest : Text) : segments (argument ++ nul :: rest) = argument :: segments rest := by
  rw [segments, List.splitOn_append_cons_self_of_not_mem hnul,
    List.filter_cons_of_pos (by simpa using hne), segments]

/-- The arguments are the segments of what the kernel writes for them. -/
theorem segments_encodeArguments {arguments : List Text}
    (h : ∀ argument ∈ arguments, argument ≠ [] ∧ nul ∉ argument) :
    segments (encodeArguments arguments) = arguments := by
  induction arguments with
  | nil => rfl
  | cons argument arguments ih =>
    rw [List.forall_mem_cons] at h
    rw [encodeArguments, List.flatMap_cons, List.append_assoc, List.singleton_append,
      segments_append_nul h.1.1 h.1.2]
    exact congrArg (argument :: ·) (ih h.2)

/-- The characters of a text other than NULs are those of its segments. -/
theorem mem_segments_iff {c : Char} (hc : c ≠ nul) {value : Text} :
    (∃ segment ∈ segments value, c ∈ segment) ↔ c ∈ value := by
  constructor
  · rintro ⟨segment, hsegment, hmem⟩
    exact subset_of_mem_splitOn (List.mem_filter.mp hsegment).1 hmem
  · intro hmem
    obtain ⟨piece, hpiece, hmem⟩ := exists_mem_splitOn hc hmem
    exact ⟨piece, List.mem_filter.mpr ⟨hpiece, by simpa using List.ne_nil_of_mem hmem⟩, hmem⟩

theorem cmdlineArguments_some (content : Text) :
    cmdlineArguments (some content) = segments (content.takeWhile (· != '\n')) := by
  rw [cmdlineArguments, argumentsFrom_eq, InputStream.firstLine_some]
  rfl

/-- All segments are taken exactly when there is no line feed. -/
theorem cmdlineArguments_eq_segments_iff (content : Text) :
    cmdlineArguments (some content) = segments content ↔ '\n' ∉ content := by
  have hne : '\n' ≠ nul := by decide
  rw [cmdlineArguments_some]
  constructor
  · intro h hmem
    obtain ⟨segment, hsegment, hchar⟩ := (mem_segments_iff hne).mpr hmem
    have hline := (mem_segments_iff hne).mp ⟨segment, h ▸ hsegment, hchar⟩
    exact not_mem_takeWhile_bne '\n' content hline
  · intro h
    rw [takeWhile_bne h]

/-- **When the command line is read as it is.** The loop ends for every content. It returns the
segments of the content exactly when there is no line feed in it, and the arguments that the kernel
has written exactly when there is no line feed in any of them. -/
theorem cmdline_exact_iff {arguments : List Text}
    (h : ∀ argument ∈ arguments, argument ≠ [] ∧ nul ∉ argument) (content : Text) :
    (cmdlineArguments (some (encodeArguments arguments)) = arguments ↔
      ∀ argument ∈ arguments, '\n' ∉ argument) ∧
    (cmdlineArguments (some content) = segments content ↔ '\n' ∉ content) := by
  refine ⟨?_, cmdlineArguments_eq_segments_iff content⟩
  have hread := cmdlineArguments_eq_segments_iff (encodeArguments arguments)
  have hmem := @mem_segments_iff '\n' (by decide) (encodeArguments arguments)
  rw [segments_encodeArguments h] at hread hmem
  rw [hread, ← hmem]
  simp

theorem cmdline_exact_iff_sample :
    (cmdlineArguments (some (encodeArguments ["sh".toList, "-c".toList])) =
        ["sh".toList, "-c".toList] ↔
      ∀ argument ∈ ["sh".toList, "-c".toList], '\n' ∉ argument) ∧
    (cmdlineArguments (some "sh".toList) = segments "sh".toList ↔ '\n' ∉ "sh".toList) :=
  cmdline_exact_iff (List.forall_iff_forall_mem.mp (by decide +kernel)) "sh".toList

/-- An argument with a line feed is cut. -/
theorem not_forall_cmdline_exact :
    ¬ ∀ arguments : List Text, (∀ argument ∈ arguments, argument ≠ [] ∧ nul ∉ argument) →
      cmdlineArguments (some (encodeArguments arguments)) = arguments := by
  intro h
  have hread := h [['a', '\n', 'b']] (List.forall_iff_forall_mem.mp (by decide +kernel))
  rw [cmdlineArguments_some] at hread
  exact absurd hread (by decide +kernel)

end ProcessInfo

end AnanicyCpp
