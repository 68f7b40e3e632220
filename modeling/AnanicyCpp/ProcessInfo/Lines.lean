import AnanicyCpp.ProcessInfo.Info

/-!
# The lines of the autogroup and of stat

`get_autogroup_from_str` and the name in the line of `stat`, on what the kernel writes there. The
numbers of the autogroup are read as `std::size_t`, which has no minus sign, so that a negative nice
value is read as `0`. The name of the process ends at the first closing parenthesis, also where the
name itself has one.

## Main definitions

* `ProcessInfo.autogroupLine`, `ProcessInfo.statLine` : what the kernel writes.
* `ProcessInfo.ReadsAutogroup` : the group and the nice value are read back.
* `ProcessInfo.ReadsOrThrows` : the ways in which `get_autogroup_from_str` can end.

## Main results

* `ProcessInfo.autogroup_exact_iff` : when the nice value of an autogroup is read back.
* `ProcessInfo.statName_statLine` : the name that is extracted.
* `ProcessInfo.stat_name_exact_iff` : when it is the name of the process.
-/

namespace AnanicyCpp

namespace ProcessInfo

open Text

/-! ### The autogroup -/

/-- `/autogroup-<g> nice <n>` -/
def autogroupLine (g : ℕ) (n : ℤ) : Text :=
  "/autogroup-".toList ++ (Nat.toDigits 10 g ++ (" nice ".toList ++ ofInt n))

/-- The text is read as an autogroup with the group and the nice value. -/
def ReadsAutogroup (str : Text) (g : ℕ) (n : ℤ) : Prop :=
  ∃ autogroup, getAutogroupFromStr str = .ok autogroup ∧
    (autogroup.index "group").integerValue = some (g : ℤ) ∧
    (autogroup.index "nice").integerValue = some n

/-- The answer is null, an object of two numbers that are read from parts of the text, or the
exception `out_of_range`. -/
def ReadsOrThrows (str : Text) : Prop :=
  getAutogroupFromStr str = .ok .null ∨
  (∃ group nice, group <:+: str ∧ nice <:+: str ∧ getAutogroupFromStr str =
    .ok (.object
      [("group", .numberUnsigned (toSize group)), ("nice", .numberUnsigned (toSize nice))])) ∨
  getAutogroupFromStr str = .error .outOfRange

theorem readsOrThrows (str : Text) : ReadsOrThrows str := by
  have hinfix (i n : ℕ) : (str.drop i).take n <:+: str :=
    (List.take_prefix n _).isInfix.trans (List.drop_suffix i str).isInfix
  rw [ReadsOrThrows, getAutogroupFromStr]
  split
  · exact Or.inl rfl
  · split
    · exact Or.inr (Or.inr rfl)
    · split
      · exact Or.inr (Or.inr rfl)
      · exact Or.inr (Or.inl ⟨_, _, hinfix _ _, hinfix _ _, rfl⟩)

theorem contains_eq_false_of_isDigit {set : Text} (hset : (set.all fun c => !c.isDigit) = true)
    {c : Char} (hc : c.isDigit = true) : set.contains c = false := by
  rw [← Bool.not_eq_true, List.contains_iff_mem]
  intro hmem
  have hdigit := List.all_eq_true.mp hset c hmem
  rw [hc] at hdigit
  exact Bool.false_ne_true hdigit

/-- The text of a number starts with a digit or a minus sign. -/
theorem exists_ofInt_cons (n : ℤ) :
    ∃ c rest, ofInt n = c :: rest ∧ (c.isDigit = true ∨ c = '-') := by
  cases n with
  | ofNat n =>
    obtain ⟨c, rest, hdigits⟩ := List.exists_cons_of_ne_nil (Nat.toDigits_ne_nil (n := n) (b := 10))
    exact ⟨c, rest, hdigits, Or.inl (isDigit_of_mem_toDigits (hdigits ▸ List.mem_cons_self))⟩
  | negSucc n => exact ⟨'-', _, rfl, Or.inr rfl⟩

section Searches

variable (g : ℕ) (n : ℤ)

theorem drop_autogroupLine_group :
    (autogroupLine g n).drop 11 = Nat.toDigits 10 g ++ ' ' :: ("nice ".toList ++ ofInt n) :=
  rfl

theorem drop_autogroupLine_nice :
    (autogroupLine g n).drop (11 + (Nat.toDigits 10 g).length) = " nice ".toList ++ ofInt n := by
  rw [← List.drop_drop, drop_autogroupLine_group, List.drop_left]
  rfl

theorem drop_autogroupLine_end :
    (autogroupLine g n).drop (11 + (Nat.toDigits 10 g).length + 6) = ofInt n := by
  rw [← List.drop_drop, drop_autogroupLine_nice]
  rfl

/-- The first search stops at the group. -/
theorem findFrom_group :
    findFrom (fun c => !"/autogroup-".toList.contains c) (autogroupLine g n) 0 = some 11 := by
  obtain ⟨d, ds, hdigits⟩ :=
    List.exists_cons_of_ne_nil (Nat.toDigits_ne_nil (n := g) (b := 10))
  have hd : d.isDigit = true := isDigit_of_mem_toDigits (hdigits ▸ List.mem_cons_self)
  refine @findFrom_of_drop _ _ "/autogroup-".toList (ds ++ (" nice ".toList ++ ofInt n)) d 0
    ?_ (by simp) ?_
  · exact congrArg (fun digits => "/autogroup-".toList ++
      (digits ++ (" nice ".toList ++ ofInt n))) hdigits
  · rw [contains_eq_false_of_isDigit (by decide +kernel) hd]
    rfl

/-- The second one stops behind it. -/
theorem findFrom_groupEnd :
    findFrom (· == ' ') (autogroupLine g n) 11 = some (11 + (Nat.toDigits 10 g).length) := by
  refine findFrom_of_drop (drop_autogroupLine_group g n) (fun e he => ?_) rfl
  rw [beq_eq_false_iff_ne]
  rintro rfl
  exact absurd (isDigit_of_mem_toDigits he) (by decide)

/-- The third one stops at the nice value. -/
theorem findFrom_nice :
    findFrom (fun c => !"nice ".toList.contains c) (autogroupLine g n)
      (11 + (Nat.toDigits 10 g).length) = some (11 + (Nat.toDigits 10 g).length + 6) := by
  obtain ⟨c, cs, hnumber, hc⟩ := exists_ofInt_cons n
  have hdrop : (autogroupLine g n).drop (11 + (Nat.toDigits 10 g).length) =
      " nice ".toList ++ c :: cs := by
    rw [drop_autogroupLine_nice, hnumber]
  refine findFrom_of_drop hdrop (by simp) ?_
  rcases hc with hc | rfl
  · rw [contains_eq_false_of_isDigit (by decide +kernel) hc]
    rfl
  · decide +kernel

/-- The group is cut out with what fits behind it, and the nice value with nothing. -/
theorem getAutogroupFromStr_autogroupLine :
    ∃ rest, getAutogroupFromStr (autogroupLine g n) =
      .ok (.object [("group", .numberUnsigned (toSize (Nat.toDigits 10 g ++ ' ' :: rest))),
        ("nice", .numberUnsigned (toSize (ofInt n)))]) := by
  have hlength : (ofInt n).length ≤ (autogroupLine g n).length := by
    rw [← drop_autogroupLine_end g n]
    exact (List.drop_suffix _ _).length_le
  refine ⟨("nice ".toList ++ ofInt n).take 10, ?_⟩
  simp only [getAutogroupFromStr, findFrom_group, findFrom_groupEnd, findFrom_nice]
  rw [drop_autogroupLine_end, List.take_of_length_le hlength, drop_autogroupLine_group,
    Nat.add_comm 11, take_append_add, List.take_succ_cons]

end Searches

theorem toNat_toSize {s : Text} (h : leadingNat s < 2 ^ 64) : (toSize s).toNat = leadingNat s := by
  rw [toSize, if_pos h, UInt64.toNat_ofNat_of_lt' h]

/-- A minus sign is no digit, so nothing is read behind it. -/
theorem leadingNat_ofInt (n : ℤ) : leadingNat (ofInt n) = n.toNat := by
  cases n with
  | ofNat n => exact leadingNat_toDigits n
  | negSucc n => rfl

/-- **When the autogroup is read back.** What is read from the line of an autogroup is its group and
its nice value exactly when the nice value is not negative. For every text the answer is null or an
object, or the exception is `out_of_range`, and only parts of the text are read. -/
theorem autogroup_exact_iff {g : ℕ} (hg : g < 2 ^ 31) {n : ℤ} (hn : -20 ≤ n ∧ n ≤ 19) (str : Text) :
    (ReadsAutogroup (autogroupLine g n) g n ↔ 0 ≤ n) ∧ ReadsOrThrows str := by
  refine ⟨?_, readsOrThrows str⟩
  obtain ⟨rest, hread⟩ := getAutogroupFromStr_autogroupLine g n
  have hgroup : leadingNat (Nat.toDigits 10 g ++ ' ' :: rest) = g :=
    leadingNat_toDigits_append g (by decide) rest
  have hnice := leadingNat_ofInt n
  have hgroupValue := toNat_toSize (s := Nat.toDigits 10 g ++ ' ' :: rest) (by omega)
  have hniceValue := toNat_toSize (s := ofInt n) (by omega)
  constructor
  · rintro ⟨autogroup, hok, -, hvalue⟩
    obtain rfl := Except.ok.inj (hread.symm.trans hok)
    have hzero : ((toSize (ofInt n)).toNat : ℤ) = n := Option.some.inj hvalue
    omega
  · intro hnonneg
    refine ⟨_, hread, congrArg some ?_, congrArg some ?_⟩
    · omega
    · omega

theorem autogroup_exact_iff_sample :
    (ReadsAutogroup (autogroupLine 25 7) 25 7 ↔ (0 : ℤ) ≤ 7) ∧ ReadsOrThrows "25".toList :=
  autogroup_exact_iff (by decide) (by decide) "25".toList

/-- The nice value `-5` is read as `0`. -/
theorem not_forall_readsAutogroup :
    ¬ ∀ (g : ℕ) (n : ℤ), g < 2 ^ 31 → -20 ≤ n ∧ n ≤ 19 →
      ReadsAutogroup (autogroupLine g n) g n := by
  intro h
  obtain ⟨autogroup, hok, -, hvalue⟩ := h 1 (-5) (by decide) (by decide)
  obtain ⟨rest, hread⟩ := getAutogroupFromStr_autogroupLine 1 (-5)
  obtain rfl := Except.ok.inj (hread.symm.trans hok)
  exact absurd (Option.some.inj hvalue) (by decide)

/-! ### The name in the line of stat -/

/-- `<pid> (<name>) <rest>` -/
def statLine (pid : UInt32) (name rest : Text) : Text :=
  Nat.toDigits 10 pid.toNat ++ (" (".toList ++ (name ++ (") ".toList ++ rest)))

/-- The name reaches from behind the first opening parenthesis to the first closing one. -/
theorem statName_of_append {front name back : Text} (hopen : '(' ∉ front) (hclose : ')' ∉ front)
    (hname : ')' ∉ name) : statName (front ++ '(' :: (name ++ ')' :: back)) = name := by
  have hbegin : findFirstOf '(' (front ++ '(' :: (name ++ ')' :: back)) = some front.length :=
    findFirstOf_append_cons hopen _
  have hend : findFirstOf ')' (front ++ '(' :: (name ++ ')' :: back)) =
      some (front.length + 1 + name.length) := by
    have hfront : ')' ∉ front ++ '(' :: name := by
      rw [List.mem_append, List.mem_cons, not_or, not_or]
      exact ⟨hclose, by decide, hname⟩
    have hfind := findFirstOf_append_cons hfront back
    rw [List.append_assoc, List.cons_append, List.length_append, List.length_cons] at hfind
    rw [hfind, Option.some.injEq]
    omega
  have hdrop : (front ++ '(' :: (name ++ ')' :: back)).drop (front.length + 1) =
      name ++ ')' :: back := by
    rw [← List.drop_drop, List.drop_left]
    rfl
  simp only [statName, hbegin, hend]
  rw [if_pos (Nat.le_add_right _ _), hdrop, Nat.add_sub_cancel_left, List.take_left]

/-- The first closing parenthesis behind the opening one is the name's own, if it has one. -/
theorem exists_append_close (name rest : Text) :
    ∃ back, name ++ ')' :: rest = name.takeWhile (· != ')') ++ ')' :: back := by
  induction name with
  | nil => exact ⟨rest, rfl⟩
  | cons c name ih =>
    by_cases hc : c = ')'
    · exact ⟨name ++ ')' :: rest, by simp [hc]⟩
    · obtain ⟨back, hback⟩ := ih
      refine ⟨back, ?_⟩
      rw [List.takeWhile_cons_of_pos (by simpa using hc), List.cons_append, hback, List.cons_append]

/-- **The name that is extracted** reaches to the first closing parenthesis in the name of the
process, whatever follows the name. -/
theorem statName_statLine (pid : UInt32) (name rest : Text) :
    statName (statLine pid name rest) = name.takeWhile (· != ')') := by
  obtain ⟨back, hback⟩ := exists_append_close name (' ' :: rest)
  have hline : statLine pid name rest =
      (Nat.toDigits 10 pid.toNat ++ [' ']) ++ '(' :: (name ++ ')' :: ' ' :: rest) := by
    rw [List.append_assoc]
    rfl
  have hfront (c : Char) (hdigit : c.isDigit = false) (hspace : c ≠ ' ') :
      c ∉ Nat.toDigits 10 pid.toNat ++ [' '] := by
    rw [List.mem_append, List.mem_singleton, not_or]
    refine ⟨fun hc => ?_, hspace⟩
    rw [isDigit_of_mem_toDigits hc] at hdigit
    exact Bool.false_ne_true hdigit.symm
  rw [hline, hback]
  exact statName_of_append (hfront '(' (by decide) (by decide)) (hfront ')' (by decide) (by decide))
    (not_mem_takeWhile_bne ')' name)

/-- The line ends with the first line feed, which is behind the name. -/
theorem firstLine_statLine (pid : UInt32) {name : Text} (hname : '\n' ∉ name) (rest : Text) :
    InputStream.firstLine (some (statLine pid name rest)) =
      statLine pid name (rest.takeWhile (· != '\n')) := by
  have hdigits : '\n' ∉ Nat.toDigits 10 pid.toNat :=
    fun h => absurd (isDigit_of_mem_toDigits h) (by decide)
  rw [InputStream.firstLine_some, statLine, statLine,
    List.takeWhile_append_of_pos (forall_bne hdigits), List.takeWhile_append_of_pos (by simp),
    List.takeWhile_append_of_pos (forall_bne hname), List.takeWhile_append_of_pos (by simp)]

/-- The status names the thread group, without which the report breaks off in front of the name. -/
def HasTgid (entry : ProcEntry) : Prop :=
  ∃ tgid, (parseProcStatus entry.status).index "Tgid" = .string tgid

/-- The member `stat_name` of a report. -/
theorem find_stat_name (pid : UInt32) (entry : ProcEntry) (exeFailCount : ℕ) :
    ∃ info, (getProcessInfo pid (some entry) exeFailCount).1 = some info ∧
      (HasTgid entry →
        info.find? "stat_name" = some (text (statName (InputStream.firstLine entry.stat)))) ∧
      (¬HasTgid entry → info.find? "stat_name" = none) := by
  rcases getProcessInfo_cases pid entry exeFailCount with
    ⟨htgid, hinfo⟩ | ⟨tgid, htgid, ⟨e, -, hinfo⟩ | ⟨autogroup, -, hinfo⟩⟩
  · refine ⟨_, hinfo, fun h => absurd h htgid, fun _ => ?_⟩
    rw [find_objectOf, lastAssigned_singleton, if_neg (by decide)]
  · refine ⟨_, hinfo, fun _ => ?_, fun h => absurd ⟨tgid, htgid⟩ h⟩
    rw [find_objectOf, lastAssigned_append]
    simp [nameMembers, lastAssigned_cons]
  · have hattributes : lastAssigned "stat_name" (attributeMembers entry) = none := by
      simp [attributeMembers, lastAssigned_cons]
    refine ⟨_, hinfo, fun _ => ?_, fun h => absurd ⟨tgid, htgid⟩ h⟩
    rw [find_objectOf, lastAssigned_append, lastAssigned_cons, hattributes]
    simp [nameMembers, lastAssigned_cons]

/-- **When the extracted name is the name of the process.** Whenever a report has a name from the
line of stat, this is the name of the process exactly when the name has no closing parenthesis, or
the report breaks off in front of it. -/
theorem stat_name_exact_iff {entry : ProcEntry} {pid : UInt32} {name rest : Text}
    (hstat : entry.stat = some (statLine pid name rest)) (hname : '\n' ∉ name)
    (exeFailCount : ℕ) :
    (∀ info value, (getProcessInfo pid (some entry) exeFailCount).1 = some info →
        info.find? "stat_name" = some value → value = text name) ↔
      (HasTgid entry → ')' ∉ name) := by
  obtain ⟨info, hinfo, hsome, hnone⟩ := find_stat_name pid entry exeFailCount
  rw [hstat, firstLine_statLine pid hname, statName_statLine] at hsome
  constructor
  · intro h htgid
    have hvalue := String.ofList_injective (Json.string.inj (h info _ hinfo (hsome htgid)))
    rw [← hvalue]
    exact not_mem_takeWhile_bne ')' name
  · intro h info' value hinfo' hvalue
    obtain rfl := Option.some.inj (hinfo.symm.trans hinfo')
    by_cases htgid : HasTgid entry
    · rw [hsome htgid, takeWhile_bne (h htgid)] at hvalue
      exact (Option.some.inj hvalue).symm
    · rw [hnone htgid] at hvalue
      exact absurd hvalue nofun

/-- The files of a process with the name and a status of one line. -/
def sampleEntry (name : Text) : ProcEntry where
  cmdline := none
  exe := .error 2
  comm := none
  status := some "Tgid:\t7".toList
  stat := some (statLine 7 name "S 1".toList)
  autogroup := none
  oomScoreAdj := none
  schedGetattr := none
  ioprioGet := 0

theorem stat_name_exact_iff_sample :
    (∀ info value, (getProcessInfo 7 (some (sampleEntry "sh (1".toList)) 0).1 = some info →
        info.find? "stat_name" = some value → value = text "sh (1".toList) ↔
      (HasTgid (sampleEntry "sh (1".toList) → ')' ∉ "sh (1".toList) :=
  @stat_name_exact_iff (sampleEntry "sh (1".toList) 7 "sh (1".toList "S 1".toList rfl (by simp) 0

/-- The name `a)b` is cut to `a`. -/
theorem not_forall_stat_name_exact :
    ¬ ∀ (entry : ProcEntry) (pid : UInt32) (name rest : Text) (exeFailCount : ℕ),
      entry.stat = some (statLine pid name rest) → '\n' ∉ name → ')' ∉ rest →
      ∀ info value, (getProcessInfo pid (some entry) exeFailCount).1 = some info →
        info.find? "stat_name" = some value → value = text name := by
  intro h
  obtain ⟨info, hinfo, hsome, -⟩ := find_stat_name 7 (sampleEntry ['a', ')', 'b']) 0
  have htgid : HasTgid (sampleEntry ['a', ')', 'b']) := ⟨"7", by
    rw [parseProcStatus, sampleEntry, InputStream.whileGood_openFile]
    rfl⟩
  have hvalue :=
    h _ 7 ['a', ')', 'b'] _ 0 rfl (by simp) (by decide +kernel) info _ hinfo (hsome htgid)
  have hname := String.ofList_injective (Json.string.inj hvalue)
  rw [sampleEntry, firstLine_statLine 7 (by simp), statName_statLine] at hname
  exact absurd hname (by decide)

end ProcessInfo

end AnanicyCpp
