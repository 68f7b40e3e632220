import AnanicyCpp.Config
import AnanicyCpp.Library.Fallible
import AnanicyCpp.Library.Numeral

/-!
# The frequency of the service loop

`Config::check_freq`, which every turn of the service loop calls. The text of the key goes through
`std::stoul`, which throws on a text without a number and on a number of more than 64 bits, and the
result is cast to 32 bits. No call is inside a `try` block, and a reload can replace the text at any
time.

## Main definitions

* `Config.checkFreq` : the call.
* `Config.FrequencyExact` : the call returns, and an integer that is written out is what it returns.
* `Config.FrequencyText` : the texts on which it does.

## Main results

* `Config.frequencyExact_iff` : one configuration.
* `Config.frequencyExact_history_iff` : the configuration after any number of reloads.
* `Config.frequencyExact_observable_iff` : the configurations that the loop can find in between.
-/

namespace AnanicyCpp

namespace Config

/-- `check_freq`. An `unsigned long` has 64 bits, and the cast keeps the low 32 of them. -/
def checkFreq (c : Config) : Except StdException UInt32 :=
  match c.get "check_freq" with
  | some text => (stoull text.toList).map UInt64.toUInt32
  | none => .ok 60

/-- The call returns, and where the text is a decimal integer with an optional sign, it returns this
integer. -/
def FrequencyExact (c : Config) : Prop :=
  ∃ n, c.checkFreq = .ok n ∧
    ∀ text, c.get "check_freq" = some text → ∀ z, Numeral.decimal true text.toList = some z →
      (n.toNat : ℤ) = z

/-- The text starts with a number of at most 64 bits, and if it is an integer as a whole, this
integer is not negative and has at most 32 bits. -/
structure FrequencyText (text : Text) : Prop where
  hasDigit : Numeral.HasDigit text
  bound : (Numeral.leadingNumber text).natAbs < 2 ^ 64
  fits : ∀ z, Numeral.decimal true text = some z → 0 ≤ z ∧ z < 2 ^ 32

/-- What the cast makes of a number that `stoul` has read. -/
theorem toNat_cast {n : UInt64} {z : ℤ} (hz : 0 ≤ z ∧ z < 2 ^ 32)
    (hn : (n.toNat : ℤ) = z % 2 ^ 64) : (n.toUInt32.toNat : ℤ) = z := by
  rw [UInt64.toNat_toUInt32]
  omega

theorem frequencyExact_iff {c : Config} :
    c.FrequencyExact ↔ ∀ text, c.get "check_freq" = some text → FrequencyText text.toList := by
  rw [FrequencyExact, checkFreq]
  cases hget : c.get "check_freq" with
  | none => simp
  | some text =>
    simp only [Option.some.injEq, forall_eq']
    constructor
    · rintro ⟨n, hn, hexact⟩
      obtain ⟨word, hword, rfl⟩ := Fallible.map_eq_ok_iff.mp hn
      obtain ⟨hdigit, hbound, -⟩ := stoull_eq_ok_iff.mp hword
      refine ⟨hdigit, hbound, fun z hz => ?_⟩
      have hvalue := hexact z hz
      have hlt := word.toUInt32.toNat_lt
      omega
    · rintro ⟨hdigit, hbound, hfits⟩
      obtain ⟨word, hword⟩ := exists_stoull_eq_ok hdigit hbound
      refine ⟨word.toUInt32, Fallible.map_eq_ok_iff.mpr ⟨word, hword, rfl⟩, fun z hz => ?_⟩
      have hvalue := (stoull_eq_ok_iff.mp hword).2.2
      rw [(Numeral.leadingNumber_of_decimal hz).2] at hvalue
      exact toNat_cast (hfits z hz) hvalue

theorem not_overridden_check_freq (supported : Bool) : ¬Overridden supported "check_freq" :=
  fun h => absurd h.2 (by decide)

theorem get_initial_check_freq (supported : Bool) :
    (initial supported).get "check_freq" = some "60" := by
  rw [get_initial supported (not_overridden_check_freq supported)]
  decide

/-- Without an assignment the text is the default. -/
theorem frequencyExact_of_get {c : Config} {last : Option String}
    (h : c.get "check_freq" = last.or (some "60")) :
    c.FrequencyExact ↔ ∀ text, last = some text → FrequencyText text.toList := by
  have hdefault : FrequencyText "60".toList :=
    ⟨by decide, by decide, fun z hz => by
      obtain rfl : 60 = z := Option.some.inj ((show some (60 : ℤ) = _ by decide).trans hz)
      decide⟩
  rw [frequencyExact_iff, h]
  cases last with
  | some text => rfl
  | none =>
    refine iff_of_true (fun text htext => ?_) nofun
    obtain rfl := Option.some.inj htext
    exact hdefault

/-- **When the frequency is exact.** After any number of reloads `check_freq` returns, and returns
what an integer that is written out says, exactly when the last text that the files have given to
the key, if there is one, starts with a number of at most 64 bits and is no integer outside the
unsigned 32-bit range. -/
theorem frequencyExact_history_iff (supported : Bool) (first : Option Text) (later : List Text) :
    (later.foldl (fun c content => c.reload supported content)
        (construct supported first)).FrequencyExact ↔
      ∀ text, lastAssigned "check_freq" ((first.toList ++ later).flatMap assignments) = some text →
        FrequencyText text.toList := by
  have hkey := not_overridden_check_freq supported
  refine frequencyExact_of_get ?_
  rw [get_foldl_reload supported later _ _ fun h => absurd h hkey, if_neg hkey]
  cases first with
  | none => rw [construct, get_initial_check_freq]; rfl
  | some content =>
    rw [construct, get_reload, if_neg hkey, get_initial_check_freq, Option.toList_some,
      List.singleton_append, List.flatMap_cons, lastAssigned_append, Option.or_assoc]

/-- A text without a number ends the service loop with an exception. -/
theorem not_forall_frequencyExact :
    ¬ ∀ (supported : Bool) (first : Option Text) (later : List Text),
      (later.foldl (fun c content => c.reload supported content)
        (construct supported first)).FrequencyExact := by
  intro h
  have hread := frequencyExact_iff.mp (h true (some "check_freq=soon\n".toList) [])
  exact absurd (hread "soon" (by decide +kernel)).hasDigit (by decide +kernel)

/-! ### Between two assignments -/

theorem frequencyExact_iff_setTo {c : Config} (h : (c.get "check_freq").isSome) :
    c.FrequencyExact ↔ SetTo "check_freq" (fun text => FrequencyText text.toList) c := by
  obtain ⟨text, htext⟩ := Option.isSome_iff_exists.mp h
  rw [frequencyExact_iff, SetTo, htext]
  simp

theorem isSome_get_construct (supported : Bool) (first : Option Text) :
    ((construct supported first).get "check_freq").isSome := by
  cases first with
  | none => rw [construct, get_initial_check_freq]; rfl
  | some content =>
    rw [construct, get_reload, if_neg (not_overridden_check_freq supported),
      get_initial_check_freq, Option.isSome_or]
    exact Bool.or_true _

theorem mem_observable_self (supported : Bool) (c : Config) (later : List Text) :
    c ∈ c.observable supported later := by
  cases later with
  | nil => exact List.mem_singleton_self c
  | cons content later =>
    rw [observable]
    refine List.mem_append_left _ ?_
    cases reloadAssignments supported content <;> simp [assignStates]

/-- The last assignment of a reload, where it is the kernel's, is to another key. -/
theorem forall_reloadAssignments_frequency_iff (supported : Bool) (content : Text) :
    (∀ e ∈ reloadAssignments supported content, e.1 = "check_freq" → FrequencyText e.2.toList) ↔
      ∀ text, ("check_freq", text) ∈ assignments content → FrequencyText text.toList := by
  have hmem (text : String) : ("check_freq", text) ∈ reloadAssignments supported content ↔
      ("check_freq", text) ∈ assignments content := by
    cases supported <;> simp [reloadAssignments]
  simp only [← hmem]
  exact ⟨fun h text htext => h _ htext rfl, fun h e he hkey => h e.2 (hkey ▸ he)⟩

/-- **What the loop can find.** While the configuration reloads any number of times, the frequency
is exact between any two assignments exactly when it is exact before, and every text that a content
gives to the key is good, also one that a later line of the same content replaces. -/
theorem frequencyExact_observable_iff (supported : Bool) (first : Option Text)
    (later : List Text) :
    (∀ c ∈ (construct supported first).observable supported later, c.FrequencyExact) ↔
      (construct supported first).FrequencyExact ∧
      ∀ content ∈ later, ∀ text, ("check_freq", text) ∈ assignments content →
        FrequencyText text.toList := by
  have hsome := isSome_get_construct supported first
  have hset : ∀ c ∈ (construct supported first).observable supported later,
      (c.get "check_freq").isSome := by
    intro c hc
    obtain ⟨text, htext⟩ := Option.isSome_iff_exists.mp hsome
    have hall := (forall_observable_iff (Q := fun _ => True) supported ⟨text, htext, trivial⟩
      later).mpr fun _ _ _ _ _ => trivial
    obtain ⟨value, hvalue, -⟩ := hall c hc
    rw [hvalue]
    rfl
  rw [forall₂_congr fun c hc => frequencyExact_iff_setTo (hset c hc),
    frequencyExact_iff_setTo hsome]
  by_cases hfirst : SetTo "check_freq" (fun text => FrequencyText text.toList)
      (construct supported first)
  · rw [forall_observable_iff supported hfirst, and_iff_right hfirst]
    exact forall₂_congr fun content _ => forall_reloadAssignments_frequency_iff supported content
  · exact iff_of_false (fun hall => hfirst (hall _ (mem_observable_self supported _ later)))
      fun h => hfirst h.1

end Config

end AnanicyCpp
