import AnanicyCpp.Library.Text

/-!
# Reading a file line by line

The input streams of the standard library, as far as `std::getline` uses them: the characters that
are left, and the two bits that `good` looks at. A loop that reads a line as long as the stream is
good reaches the end of the file inside its body, so its last line may be a line that is not there.

## Main definitions

* `InputStream`, `InputStream.getline` : a stream, and one line from it.
* `InputStream.whileGood` : the loop `while (stream.good()) { getline(stream, line); ... }`.
* `InputStream.firstLine` : one `getline` from a file, into a string that is empty before.

## Main results

* `InputStream.firstLine_some` : the text in front of the first line feed.
* `InputStream.whileGood_openFile` : the loop sees the pieces between line feeds, each once.
-/

/-- The characters that are left, and the bits `eofbit` and `failbit`. -/
structure InputStream where
  rest : Text
  eofbit : Bool
  failbit : Bool

namespace InputStream

/-- `std::ifstream{path}`; opening a file that cannot be read sets `failbit`. -/
def openFile : Option Text → InputStream
  | some content => ⟨content, false, false⟩
  | none => ⟨[], false, true⟩

def good (s : InputStream) : Bool := !s.eofbit && !s.failbit

/-- `std::getline(stream, line)`: the string and the stream after the call. The end of the file sets
`eofbit`, and `failbit` as well if it comes before the first character. -/
def getline (s : InputStream) (line : Text) : Text × InputStream :=
  if s.good then
    match s.rest.dropWhile (· != '\n') with
    | _ :: rest => (s.rest.takeWhile (· != '\n'), { s with rest := rest })
    | [] => (s.rest, ⟨[], true, s.rest.isEmpty⟩)
  else (line, { s with failbit := true })

/-- A line feed at the head of what is left, or the end of the file. -/
theorem getline_cases {s : InputStream} (h : s.good) (line : Text) :
    (∃ piece rest, '\n' ∉ piece ∧ s.rest = piece ++ '\n' :: rest ∧
      s.getline line = (piece, { s with rest := rest })) ∨
    ('\n' ∉ s.rest ∧ s.getline line = (s.rest, ⟨[], true, s.rest.isEmpty⟩)) := by
  have hpiece : '\n' ∉ s.rest.takeWhile (· != '\n') := fun hmem => by
    simpa using List.mem_takeWhile_imp hmem
  have hsplit : s.rest.takeWhile (· != '\n') ++ s.rest.dropWhile (· != '\n') = s.rest :=
    List.takeWhile_append_dropWhile
  rw [getline, if_pos h]
  cases hdrop : s.rest.dropWhile (· != '\n') with
  | nil =>
    rw [hdrop, List.append_nil] at hsplit
    exact Or.inr ⟨hsplit ▸ hpiece, rfl⟩
  | cons c rest =>
    have hc : c = '\n' := by
      have hhead := List.head?_dropWhile_not (· != '\n') s.rest
      simpa [hdrop] using hhead
    rw [hdrop, hc] at hsplit
    exact Or.inl ⟨_, rest, hpiece, hsplit.symm, rfl⟩

/-- The loop over a stream. The string is declared in front of the loop and keeps its value where
`getline` does not write it. -/
def whileGood {σ : Type*} (body : σ → Text → σ) (s : InputStream) (line : Text) (acc : σ) : σ :=
  if _h : s.good then
    whileGood body (s.getline line).2 (s.getline line).1 (body acc (s.getline line).1)
  else acc
termination_by if s.good then s.rest.length + 1 else 0
decreasing_by
  rcases getline_cases _h line with ⟨piece, rest, -, hrest, hget⟩ | ⟨-, hget⟩
  · have hgood : ({ s with rest := rest } : InputStream).good = true := _h
    simp only [hget, hgood, _h, if_true, hrest, List.length_append, List.length_cons]
    omega
  · have hgood : (⟨[], true, s.rest.isEmpty⟩ : InputStream).good = false := rfl
    simp only [hget, hgood, _h, if_true]
    simp

/-- The string after one `getline` from a file. -/
def firstLine (content : Option Text) : Text := ((openFile content).getline []).1

theorem firstLine_some (content : Text) :
    firstLine (some content) = content.takeWhile (· != '\n') := by
  have hgood : (openFile (some content)).good := rfl
  rcases getline_cases hgood [] with ⟨piece, rest, hpiece, hrest, hget⟩ | ⟨hlast, hget⟩
  · obtain rfl : content = piece ++ '\n' :: rest := hrest
    rw [firstLine, hget, Text.takeWhile_bne_append_cons hpiece]
  · rw [firstLine, hget]
    exact (Text.takeWhile_bne hlast).symm

section

variable {σ : Type*} (body : σ → Text → σ)

theorem whileGood_not_good {s : InputStream} (h : s.good = false) (line : Text) (acc : σ) :
    whileGood body s line acc = acc := by
  rw [whileGood, dif_neg (by simp [h])]

/-- **The loop sees every piece once.** On a file that can be opened the body runs for the pieces
between line feeds, in order; a final line feed is followed by one empty piece. -/
theorem whileGood_openFile (content line : Text) (acc : σ) :
    whileGood body (openFile (some content)) line acc = (content.splitOn '\n').foldl body acc := by
  induction hn : content.length using Nat.strong_induction_on generalizing content line acc with
  | _ n ih =>
    have hgood : (openFile (some content)).good := rfl
    rw [whileGood, dif_pos hgood]
    rcases getline_cases hgood line with ⟨piece, rest, hpiece, hrest, hget⟩ | ⟨hlast, hget⟩
    · obtain rfl : content = piece ++ '\n' :: rest := hrest
      have hlt : rest.length < n := by
        rw [← hn, List.length_append, List.length_cons]
        omega
      rw [hget, List.splitOn_append_cons_self_of_not_mem hpiece, List.foldl_cons]
      exact ih _ hlt rest piece (body acc piece) rfl
    · have hpieces : content.splitOn '\n' = [content] := List.splitOn_eq_singleton hlast
      rw [hget, hpieces]
      exact whileGood_not_good body rfl _ _

theorem whileGood_openFile_none (line : Text) (acc : σ) :
    whileGood body (openFile none) line acc = acc :=
  whileGood_not_good body rfl line acc

end

end InputStream
