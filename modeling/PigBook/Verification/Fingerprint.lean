import Mathlib.Data.List.Basic
import Mathlib.Data.String.Basic
import Mathlib.Logic.Relation
import Mathlib.Tactic.Common

/-
  The fingerprint of a gate's input files, by which the
  evidence of an earlier run is found again.

  Key definitions include:
    * `InputFile`, `InputTree`
    * `InputFile.hashed`, `hashed`
    * `computeFingerprint`
    * `InputFile.swallow`, `Swallows`

  Key theorems include:
    * `InputFile.hashed_injective`
    * `Swallows.hashed`
    * `fingerprint_injective_iff`
-/

------------------------------------------------------------
-- Delimited Bytes
------------------------------------------------------------

namespace PigBook.Verification

/- What precedes the first delimiter is determined. -/
theorem append_delimiter_inj
    {α : Type}
    {d : α}
    {xs ys xs' ys' : List α}
    (hFree : d ∉ xs)
    (hFree' : d ∉ ys)
    (hSame : xs ++ d :: xs' = ys ++ d :: ys') :
    xs = ys ∧ xs' = ys' := by
  induction xs generalizing ys with
  | nil =>
      cases ys with
      | nil => exact ⟨rfl, (List.cons.inj hSame).2⟩
      | cons y ys =>
          have hHead := (List.cons.inj hSame).1
          rw [hHead] at hFree'
          exact absurd List.mem_cons_self hFree'
  | cons x xs ih =>
      cases ys with
      | nil =>
          have hHead := (List.cons.inj hSame).1
          rw [hHead] at hFree
          exact absurd List.mem_cons_self hFree
      | cons y ys =>
          rcases List.cons.inj hSame with ⟨hHead, hTail⟩
          rcases
            ih (fun hIn => hFree (List.mem_cons_of_mem _ hIn))
              (fun hIn => hFree' (List.mem_cons_of_mem _ hIn))
              hTail with
            ⟨hXs, hRest⟩
          rw [hHead, hXs]
          exact ⟨rfl, hRest⟩

/- text.encode("utf-8") -/
def encode (text : String) : List UInt8 :=
  text.toList.flatMap String.utf8EncodeChar

theorem encode_injective
    {text text' : String}
    (hSame : encode text = encode text') :
    text = text' := by
  have hBytes :
      ∀ t : String, t.toByteArray = (encode t).toByteArray := by
    intro t
    rw [← String.ofList_toList (s := t)]
    rw [String.toByteArray_ofList]
    unfold encode
    rw [String.toList_ofList]
    rfl
  apply String.toByteArray_inj.mp
  rw [hBytes text, hBytes text', hSame]

theorem ofNat_ne_zero
    {n : ℕ}
    (hLow : 128 ≤ n % 256) :
    (0 : UInt8) ≠ UInt8.ofNat n := by
  intro hZero
  have hNat := congrArg UInt8.toNat hZero
  rw [UInt8.toNat_ofNat'] at hNat
  have hNone : (0 : UInt8).toNat = 0 := rfl
  omega

/- Only the character NUL is encoded with the byte zero. -/
theorem zero_mem_encodeChar
    {c : Char}
    (hZero : 0 ∈ String.utf8EncodeChar c) :
    c = '\x00' := by
  unfold String.utf8EncodeChar at hZero
  dsimp only at hZero
  split_ifs at hZero with hOne hTwo hThree
  · rw [List.mem_singleton] at hZero
    have hNat := congrArg UInt8.toNat hZero
    rw [UInt8.toNat_ofNat'] at hNat
    have hNone : (0 : UInt8).toNat = 0 := rfl
    apply Char.ext
    apply UInt32.toNat.inj
    change c.val.toNat = 0
    omega
  -- every byte of a longer encoding is 128 at least
  all_goals
    exfalso
    simp only [List.mem_cons, List.not_mem_nil, or_false]
      at hZero
  · rcases hZero with h | h
    · exact ofNat_ne_zero (by omega) h
    · exact ofNat_ne_zero (by omega) h
  · rcases hZero with h | h | h
    · exact ofNat_ne_zero (by omega) h
    · exact ofNat_ne_zero (by omega) h
    · exact ofNat_ne_zero (by omega) h
  · rcases hZero with h | h | h | h
    · exact ofNat_ne_zero (by omega) h
    · exact ofNat_ne_zero (by omega) h
    · exact ofNat_ne_zero (by omega) h
    · exact ofNat_ne_zero (by omega) h

theorem zero_not_mem_encode
    {text : String}
    (hFree : '\x00' ∉ text.toList) :
    (0 : UInt8) ∉ encode text := by
  intro hZero
  rcases List.mem_flatMap.mp hZero with ⟨c, hMem, hByte⟩
  rw [zero_mem_encodeChar hByte] at hMem
  exact hFree hMem

end PigBook.Verification

------------------------------------------------------------
-- Input Trees
------------------------------------------------------------

namespace PigBook.Verification

/-
  A file that takes part: its path below the root, its mode,
  and its bytes.
-/
structure InputFile where
  path : String
  mode : ℕ
  content : List UInt8
  noNul : '\x00' ∉ path.toList

theorem InputFile.ext
    {f g : InputFile}
    (hPath : f.path = g.path)
    (hMode : f.mode = g.mode)
    (hContent : f.content = g.content) :
    f = g := by
  cases f
  cases g
  cases hPath
  cases hMode
  cases hContent
  rfl

/- The files of a gate, in the order of their paths. -/
structure InputTree where
  files : List InputFile
  sorted : files.Pairwise (fun f g => f.path < g.path)

theorem InputTree.ext
    {t t' : InputTree}
    (hFiles : t.files = t'.files) :
    t = t' := by
  cases t
  cases t'
  cases hFiles
  rfl

/- The path and the mode, each with its delimiter. -/
def InputFile.header (f : InputFile) : List UInt8 :=
  encode f.path ++ 0 :: (encode (toString f.mode) ++ [0])

/- What the hash is fed with for one file. -/
def InputFile.hashed (f : InputFile) : List UInt8 :=
  f.header ++ (f.content ++ [0])

/- The bytes that the hash of a gate is fed with. -/
def hashed
    (gate : String)
    (t : InputTree) : List UInt8 :=
  encode gate ++ 0 :: t.files.flatMap InputFile.hashed

def computeFingerprint
    (sha256 : List UInt8 → String)
    (gate : String)
    (t : InputTree) : String :=
  sha256 (hashed gate t)

end PigBook.Verification

------------------------------------------------------------
-- Swallowed Files
------------------------------------------------------------

namespace PigBook.Verification

/-
  The file whose content goes on with the delimiter, the
  header and the content of the file after it.
-/
def InputFile.swallow
    (f g : InputFile) : InputFile where
  path := f.path
  mode := f.mode
  content := f.content ++ 0 :: (g.header ++ g.content)
  noNul := f.noNul

/- One file of a tree swallows the one after it. -/
def Swallows (t t' : InputTree) : Prop :=
  ∃ newer f g older,
    t.files = newer ++ f :: g :: older ∧
      t'.files = newer ++ f.swallow g :: older

theorem InputFile.hashed_swallow
    (f g : InputFile) :
    (f.swallow g).hashed = f.hashed ++ g.hashed := by
  simp [hashed, swallow, header]

theorem Swallows.hashed
    {t t' : InputTree}
    (hSwallows : Swallows t t')
    (gate : String) :
    hashed gate t' = hashed gate t := by
  rcases hSwallows with ⟨newer, f, g, older, hFiles, hFiles'⟩
  unfold Verification.hashed
  rw [hFiles, hFiles']
  simp only [List.flatMap_append, List.flatMap_cons,
    InputFile.hashed_swallow, List.append_assoc]

/- However many files are swallowed, the bytes are the same. -/
theorem hashed_of_swallows
    {t t' : InputTree}
    (hSwallows : Relation.ReflTransGen Swallows t t')
    (gate : String) :
    hashed gate t' = hashed gate t := by
  induction hSwallows with
  | refl => rfl
  | tail _ hStep ih => rw [hStep.hashed, ih]

theorem toString_injective
    {n m : ℕ}
    (hSame : toString n = toString m) :
    n = m := by
  have hDigits := congrArg String.toList hSame
  rw [Nat.toString_eq_repr, Nat.toString_eq_repr,
    Nat.toList_repr, Nat.toList_repr] at hDigits
  have hValues :=
    congrArg (fun cs => Nat.ofDigitChars 10 cs 0) hDigits
  rw [Nat.ofDigitChars_ten_toDigits,
    Nat.ofDigitChars_ten_toDigits] at hValues
  exact hValues

theorem InputFile.hashed_injective
    {f g : InputFile}
    (hSame : f.hashed = g.hashed) :
    f = g := by
  unfold hashed header at hSame
  simp only [List.append_assoc, List.cons_append,
    List.nil_append] at hSame
  have hDigits :
      ∀ n : ℕ, (0 : UInt8) ∉ encode (toString n) := by
    intro n
    apply zero_not_mem_encode
    intro hNul
    rw [Nat.toString_eq_repr, Nat.toList_repr] at hNul
    have hDigit :=
      Nat.isDigit_of_mem_toDigits (b := 10) (by omega)
        (by omega) hNul
    exact absurd hDigit (by decide)
  rcases
    append_delimiter_inj (zero_not_mem_encode f.noNul)
      (zero_not_mem_encode g.noNul) hSame with
    ⟨hPath, hRest⟩
  rcases
    append_delimiter_inj (hDigits f.mode) (hDigits g.mode)
      hRest with
    ⟨hMode, hContent⟩
  apply InputFile.ext
  · exact encode_injective hPath
  · exact toString_injective (encode_injective hMode)
  · exact List.append_cancel_right hContent

/- Swallowed one by one, all files end up in the first. -/
theorem swallows_one
    (t : InputTree) :
    ∃ u, Relation.ReflTransGen Swallows t u ∧
      u.files.length ≤ 1 := by
  rcases t with ⟨files, hSorted⟩
  cases files with
  | nil => exact ⟨_, .refl, Nat.zero_le 1⟩
  | cons f rest =>
      -- by induction on the files still to be swallowed
      induction rest generalizing f with
      | nil => exact ⟨_, .refl, le_refl 1⟩
      | cons g older ih =>
          rcases List.pairwise_cons.mp hSorted with
            ⟨hFirst, hRest⟩
          have hSorted' :
              (f.swallow g :: older).Pairwise
                (fun f g => f.path < g.path) := by
            apply List.pairwise_cons.mpr
            constructor
            · intro x hx
              exact hFirst x (List.mem_cons_of_mem _ hx)
            · exact (List.pairwise_cons.mp hRest).2
          rcases ih (f.swallow g) hSorted' with
            ⟨u, hSwallows, hOne⟩
          refine ⟨u, .head ?_ hSwallows, hOne⟩
          exact ⟨[], f, g, older, rfl, rfl⟩

/- Of trees with one file at most the bytes tell everything. -/
theorem hashed_injective_of_one
    {gate : String}
    {t t' : InputTree}
    (hOne : t.files.length ≤ 1)
    (hOne' : t'.files.length ≤ 1)
    (hSame : hashed gate t = hashed gate t') :
    t = t' := by
  unfold hashed at hSame
  have hFiles :=
    (List.cons.inj (List.append_cancel_left hSame)).2
  have hFed : ∀ f : InputFile, f.hashed ≠ [] := by
    intro f hNil
    simp [InputFile.hashed, InputFile.header] at hNil
  apply InputTree.ext
  cases hT : t.files with
  | nil =>
      cases hT' : t'.files with
      | nil => rfl
      | cons g older =>
          rw [hT, hT'] at hFiles
          have hNil :=
            (List.append_eq_nil_iff.mp hFiles.symm).1
          exact absurd hNil (hFed g)
  | cons f older =>
      rw [hT] at hOne
      have hEmpty : older = [] :=
        List.eq_nil_of_length_eq_zero
          (Nat.le_zero.mp (Nat.le_of_succ_le_succ hOne))
      cases hT' : t'.files with
      | nil =>
          rw [hT, hT'] at hFiles
          have hNil := (List.append_eq_nil_iff.mp hFiles).1
          exact absurd hNil (hFed f)
      | cons g older' =>
          rw [hT'] at hOne'
          have hEmpty' : older' = [] :=
            List.eq_nil_of_length_eq_zero
              (Nat.le_zero.mp (Nat.le_of_succ_le_succ hOne'))
          rw [hT, hT', hEmpty, hEmpty'] at hFiles
          simp only [List.flatMap_cons, List.flatMap_nil,
            List.append_nil] at hFiles
          rw [hEmpty, hEmpty',
            InputFile.hashed_injective hFiles]

/-
  The bytes of two trees differ unless files can be swallowed
  in both until the trees are the same.
-/
theorem fingerprint_injective_iff
    (gate : String)
    (t t' : InputTree) :
    hashed gate t ≠ hashed gate t' ↔
      ¬ ∃ u, Relation.ReflTransGen Swallows t u ∧
        Relation.ReflTransGen Swallows t' u := by
  apply not_congr
  constructor
  · intro hSame
    rcases swallows_one t with ⟨u, hSwallows, hOne⟩
    rcases swallows_one t' with ⟨u', hSwallows', hOne'⟩
    have hBoth : hashed gate u = hashed gate u' := by
      rw [hashed_of_swallows hSwallows, hSame,
        hashed_of_swallows hSwallows']
    rw [← hashed_injective_of_one hOne hOne' hBoth]
      at hSwallows'
    exact ⟨u, hSwallows, hSwallows'⟩
  · rintro ⟨u, hSwallows, hSwallows'⟩
    rw [← hashed_of_swallows hSwallows,
      hashed_of_swallows hSwallows']

/- Two files, and one whose content contains the second. -/
def separateFiles : InputTree where
  files :=
    [⟨"scripts/a", 420, encode "x", by decide⟩,
      ⟨"scripts/b", 420, encode "y", by decide⟩]
  sorted := by decide

def imitatingFile : InputTree where
  files :=
    [⟨"scripts/a", 420,
      encode "x\x00scripts/b\x00420\x00y", by decide⟩]
  sorted := by decide

/- They have different contents and the same bytes. -/
theorem imitatingFile_hashed :
    imitatingFile ≠ separateFiles ∧
      hashed "unit" imitatingFile =
        hashed "unit" separateFiles := by
  constructor
  · intro hSame
    have hLength :=
      congrArg (fun t => t.files.length) hSame
    exact absurd hLength (by decide)
  · decide

end PigBook.Verification
