import AnanicyCpp.Config

/-!
# The text of a configuration

`Config::operator std::string`, which the constructor writes to the path of a configuration that
does not exist, next to the reading of that text by a constructor that finds it. The printer goes
over an unordered map, so the order of the lines is not determined; behind the header each line is
one entry, and every entry has one line.

## Main definitions

* `Config.configString` : the text, for a time stamp and an order of the entries.
* `Config.Plain`, `Config.Printable` : the texts that survive the reader, and the configurations
  made of them.

## Main results

* `Config.assignments_configString` : the file says what the map holds.
* `Config.construct_configString` : the constructor rebuilds the map.
-/

namespace AnanicyCpp

namespace Config

/-! ### Printing -/

/-- `"# Generated by ananicy-cpp-ng at {}\n"`, for the text of the time. -/
def configHeader (now : Text) : Text :=
  "# Generated by ananicy-cpp-ng at ".toList ++ now ++ ['\n']

/-- `"{:s} = {}\n"` -/
def configLine (item : String × String) : Text :=
  item.1.toList ++ " = ".toList ++ item.2.toList ++ ['\n']

/-- `operator std::string`, for the order in which the loop finds the entries. -/
def configString (now : Text) (items : List (String × String)) : Text :=
  configHeader now ++ items.flatMap configLine

/-- A text on one line that has a first and a last character, neither of them a space. -/
structure Plain (s : Text) : Prop where
  ne_nil : s ≠ []
  newline : '\n' ∉ s
  first : s.head? ≠ some ' '
  last : s.getLast? ≠ some ' '

instance (s : Text) : Decidable (Plain s) :=
  decidable_of_iff (s ≠ [] ∧ '\n' ∉ s ∧ s.head? ≠ some ' ' ∧ s.getLast? ≠ some ' ')
    ⟨fun h => ⟨h.1, h.2.1, h.2.2.1, h.2.2.2⟩, fun h => ⟨h.1, h.2, h.3, h.4⟩⟩

/-- The configurations that can be printed: every default key is there, keys and values are plain
and no key has a `=`. Where the kernel does not have latency nice, it is off. -/
structure Printable (supported : Bool) (c : Config) : Prop where
  default : ∀ item ∈ defaultConfig, (c.get item.1).isSome
  key : ∀ item ∈ c.config.entries, Plain item.1.toList ∧ '=' ∉ item.1.toList
  value : ∀ item ∈ c.config.entries, Plain item.2.toList
  latnice : supported = false → c.get "apply_latnice" = some "false"

/-! ### Reading a text by its lines -/

theorem assignmentOfLine_eq_none {line : Text} (h : '=' ∉ line) : assignmentOfLine line = none := by
  have hdrop : line.dropWhile (· != '=') = [] :=
    List.dropWhile_eq_nil_iff.mpr (Text.forall_bne h)
  rw [assignmentOfLine, hdrop]

/-- The empty piece behind a final line feed assigns nothing. -/
theorem assignments_eq_filterMap (content : Text) :
    assignments content = (content.splitOn '\n').filterMap assignmentOfLine := by
  rw [assignments, Text.getlines]
  split_ifs with hlast
  · have hpieces := List.dropLast_append_getLast? [] hlast
    have hempty : assignmentOfLine [] = none := assignmentOfLine_eq_none List.not_mem_nil
    conv_rhs => rw [← hpieces, List.filterMap_append]
    rw [List.filterMap_cons_none hempty, List.filterMap_nil, List.append_nil]
  · rfl

/-- A line feed separates what the texts around it assign. -/
theorem assignments_append (content rest : Text) :
    assignments (content ++ '\n' :: rest) = assignments content ++ assignments rest := by
  simp only [assignments_eq_filterMap, List.splitOn_append_cons_self, List.filterMap_append]

theorem assignments_line {line : Text} (h : '\n' ∉ line) :
    assignments line = (assignmentOfLine line).toList := by
  rw [assignments_eq_filterMap, List.splitOn_eq_singleton h]
  cases hline : assignmentOfLine line with
  | none => rw [List.filterMap_cons_none hline]; rfl
  | some item => rw [List.filterMap_cons_some hline]; rfl

/-- A text without `=` assigns nothing, over however many lines it goes. -/
theorem assignments_eq_nil {content : Text} (h : '=' ∉ content) : assignments content = [] := by
  rw [assignments_eq_filterMap, List.filterMap_eq_nil_iff]
  intro line hline
  exact assignmentOfLine_eq_none fun hmem => h (Text.subset_of_mem_splitOn hline hmem)

theorem assignments_append_of_not_mem {content : Text} (h : '=' ∉ content) (rest : Text) :
    assignments (content ++ ['\n'] ++ rest) = assignments rest := by
  rw [List.append_assoc, List.singleton_append, assignments_append, assignments_eq_nil h,
    List.nil_append]

/-! ### Reading back what was printed -/

namespace Plain

variable {s : Text}

theorem dropWhile_eq_self (h : Plain s) : s.dropWhile (· == ' ') = s := by
  obtain ⟨c, rest, rfl⟩ := List.exists_cons_of_ne_nil h.ne_nil
  have hc : ¬(c == ' ') = true := fun hc => h.first (by rw [beq_iff_eq.mp hc, List.head?_cons])
  exact List.dropWhile_cons_of_neg hc

theorem rdropWhile_eq_self (h : Plain s) : s.rdropWhile (· == ' ') = s := by
  rw [List.rdropWhile_eq_self_iff]
  intro hne hlast
  exact h.last (by rw [List.getLast?_eq_some_getLast hne, beq_iff_eq.mp hlast])

/-- A plain text has a character that is no space, whatever surrounds it. -/
theorem not_all_space (h : Plain s) (before after : Text) :
    ¬(before ++ (s ++ after)).all (· == ' ') = true := by
  obtain ⟨c, rest, rfl⟩ := List.exists_cons_of_ne_nil h.ne_nil
  have hc : c ≠ ' ' := fun hc => h.first (by rw [hc, List.head?_cons])
  simp [hc]

theorem trim_append_space (h : Plain s) : trim (s ++ [' ']) = s := by
  have hall := h.not_all_space [] [' ']
  rw [List.nil_append] at hall
  obtain ⟨c, rest, hs⟩ := List.exists_cons_of_ne_nil h.ne_nil
  have hc : ¬(c == ' ') = true := fun hc => h.first (by rw [hs, beq_iff_eq.mp hc, List.head?_cons])
  have hdrop : (s ++ [' ']).dropWhile (· == ' ') = s ++ [' '] := by
    rw [hs, List.cons_append]
    exact List.dropWhile_cons_of_neg hc
  rw [trim, if_neg hall, Text.strip, hdrop, List.rdropWhile_concat_pos _ _ _ rfl,
    h.rdropWhile_eq_self]

theorem trim_space_cons (h : Plain s) : trim (' ' :: s) = s := by
  have hall := h.not_all_space [' '] []
  rw [List.append_nil, List.singleton_append] at hall
  rw [trim, if_neg hall, Text.strip, List.dropWhile_cons_of_pos rfl, h.dropWhile_eq_self,
    h.rdropWhile_eq_self]

end Plain

/-- A printed line reads back as its entry. The first `=` of the line is the one that was printed,
and the spaces around it go. -/
theorem assignmentOfLine_item {key value : Text} (hkey : Plain key) (heq : '=' ∉ key)
    (hvalue : Plain value) :
    assignmentOfLine (key ++ " = ".toList ++ value) =
      some (String.ofList key, String.ofList value) := by
  have hline : key ++ " = ".toList ++ value = (key ++ [' ']) ++ '=' :: ' ' :: value := by
    simp only [List.append_assoc]
    rfl
  have hfront : '=' ∉ key ++ [' '] := by
    rw [List.mem_append, not_or]
    exact ⟨heq, by decide⟩
  rw [hline, assignmentOfLine, Text.dropWhile_bne_append_cons hfront,
    Text.takeWhile_bne_append_cons hfront]
  simp only [hkey.trim_append_space, hvalue.trim_space_cons]

theorem assignments_configLine_append {item : String × String} (hkey : Plain item.1.toList)
    (heq : '=' ∉ item.1.toList) (hvalue : Plain item.2.toList) (rest : Text) :
    assignments (configLine item ++ rest) = item :: assignments rest := by
  have hnewline : '\n' ∉ item.1.toList ++ " = ".toList ++ item.2.toList := by
    rw [List.mem_append, List.mem_append, not_or, not_or]
    exact ⟨⟨hkey.newline, by decide⟩, hvalue.newline⟩
  rw [configLine, List.append_assoc, List.singleton_append, assignments_append,
    assignments_line hnewline, assignmentOfLine_item hkey heq hvalue]
  simp only [String.ofList_toList, Option.toList_some, List.singleton_append]

/-- The lines of entries read back in the order in which they were printed. -/
theorem assignments_flatMap_configLine {items : List (String × String)}
    (hkey : ∀ item ∈ items, Plain item.1.toList ∧ '=' ∉ item.1.toList)
    (hvalue : ∀ item ∈ items, Plain item.2.toList) :
    assignments (items.flatMap configLine) = items := by
  induction items with
  | nil => rfl
  | cons item items ih =>
    rw [List.forall_mem_cons] at hkey hvalue
    rw [List.flatMap_cons, assignments_configLine_append hkey.1.1 hkey.1.2 hvalue.1,
      ih hkey.2 hvalue.2]

/-- The header assigns nothing. -/
theorem assignments_configHeader_append {now : Text} (hnow : '=' ∉ now) (rest : Text) :
    assignments (configHeader now ++ rest) = assignments rest := by
  have hheader : '=' ∉ "# Generated by ananicy-cpp-ng at ".toList := by simp
  exact assignments_append_of_not_mem (List.not_mem_append hheader hnow) rest

/-- **What the file says.** The assignments of a printed configuration are the entries of the map in
the order in which they were printed. -/
theorem assignments_configString {supported : Bool} {c : Config} (hc : c.Printable supported)
    {items : List (String × String)} (hitems : items.Perm c.config.entries) {now : Text}
    (hnow : '=' ∉ now) : assignments (configString now items) = items := by
  rw [configString, assignments_configHeader_append hnow]
  exact assignments_flatMap_configLine (fun item hitem => hc.key item (hitems.subset hitem))
    fun item hitem => hc.value item (hitems.subset hitem)

/-- **A written configuration is read back.** A constructor that finds the text of a printable
configuration builds the same map, whatever the time of the header and the order of the lines. -/
theorem construct_configString {supported : Bool} {c : Config} (hc : c.Printable supported)
    {items : List (String × String)} (hitems : items.Perm c.config.entries) {now : Text}
    (hnow : '=' ∉ now) : construct supported (some (configString now items)) = c := by
  have hnodup : (c.config.entries.map Prod.fst).Nodup := c.config.sorted.nodup_keys
  have hlast (key : String) : lastAssigned key items = c.get key := by
    rw [← lastAssigned_perm hnodup hitems.symm]
    ext value
    rw [lastAssigned_eq_some_iff hnodup, get, SortedMap.mem_entries_iff]
  suffices hconfig : (construct supported (some (configString now items))).config = c.config by
    cases c
    exact congrArg Config.mk hconfig
  refine SortedMap.ext_lookup fun key => ?_
  change (construct supported (some (configString now items))).get key = c.get key
  rw [get_construct_some, assignments_configString hc hitems hnow, hlast]
  split_ifs with hkey
  · obtain ⟨hsupported, rfl⟩ := hkey
    exact (hc.latnice hsupported).symm
  · -- a key that is not in the map is no default key either
    cases hget : c.get key with
    | some value => rfl
    | none =>
      rw [get_initial supported hkey, Option.none_or, ← Option.not_isSome_iff_eq_none,
        isSome_lastAssigned_iff]
      intro hdefault
      obtain ⟨item, hitem, rfl⟩ := List.mem_map.mp hdefault
      simpa [hget] using hc.default item hitem

/-- The defaults with an entry whose value has a `=`, printed backwards. -/
theorem construct_configString_sample :
    let c : Config := ⟨(initial false).config.insert "comment" "a = b"⟩
    construct false (some (configString "2024-05-01 12:00:00".toList c.config.entries.reverse)) =
      c :=
  construct_configString
    ⟨by decide +kernel,
      List.forall_iff_forall_mem.mp (by decide +kernel),
      List.forall_iff_forall_mem.mp (by decide +kernel),
      fun _ => by decide +kernel⟩
    (List.reverse_perm _) (by simp)

end Config

end AnanicyCpp
