import Mathlib.Data.List.Nodup
import Mathlib.Logic.Function.Basic

/-
  Values that several users take from one place.

  A jar holds a value.  A user who spends it waits until the
  jar has been given a new value, or none.  No user spends one
  value twice; and if nobody spends while someone else does,
  no value is spent twice at all.

  Key definitions include:
    * `Custody`
    * `Custody.Step`
    * `Custody.Sound`

  Key theorems include:
    * `Custody.Sound.step`
-/

------------------------------------------------------------
-- Custody
------------------------------------------------------------

namespace Machine

/-
  The value in the jar, the values that there have been, the
  values being spent, and who has spent which, the latest
  first.
-/
@[ext] structure Custody (ι V : Type) where
  jar : Option V
  issued : List V
  spending : ι → Option V
  sent : List (ι × V)

namespace Custody

variable {ι V : Type} [DecidableEq ι]

/- `alone` when users exclude each other. -/
inductive Step
    (alone : Prop)
    (s : Custody ι V) : Custody ι V → Prop
  /- The jar is given a value that there has not been. -/
  | renew
      (v : V)
      (hFresh : v ∉ s.issued) :
      Step alone s
        { s with jar := some v, issued := v :: s.issued }
  /- The jar is emptied. -/
  | drop : Step alone s { s with jar := none }
  /- A user spends the value in the jar. -/
  | spend
      (i : ι)
      (v : V)
      (hJar : s.jar = some v)
      (hIdle : s.spending i = none)
      (hAlone : alone → ∀ j, s.spending j = none) :
      Step alone s
        { s with
          spending := Function.update s.spending i (some v)
          sent := (i, v) :: s.sent }
  /- A user who has spent a value gives the jar a new one. -/
  | answer
      (i : ι)
      (v : V)
      (hFresh : v ∉ s.issued) :
      Step alone s
        { s with
          jar := some v
          issued := v :: s.issued
          spending := Function.update s.spending i none }
  /- Or leaves it empty. -/
  | refuse
      (i : ι) :
      Step alone s
        { s with
          jar := none
          spending := Function.update s.spending i none }

/-
  A value that was spent is in the jar only while the one who
  has spent it waits.
-/
structure Sound
    (alone : Prop)
    (s : Custody ι V) : Prop where
  sent : ∀ i v, (i, v) ∈ s.sent → v ∈ s.issued
  jar : ∀ v, s.jar = some v → v ∈ s.issued
  waits :
    ∀ i v, (i, v) ∈ s.sent → s.jar = some v →
      s.spending i = some v
  own :
    ∀ i, ((s.sent.filter (fun p => p.1 = i)).map
      Prod.snd).Nodup
  once : alone → (s.sent.map Prod.snd).Nodup

variable {alone : Prop} {s s' : Custody ι V}

/- Nothing has been spent. -/
theorem Sound.unspent
    (hJar : ∀ v, s.jar = some v → v ∈ s.issued)
    (hSent : s.sent = []) :
    Sound alone s where
  sent := by simp [hSent]
  jar := hJar
  waits := by simp [hSent]
  own := by simp [hSent]
  once := by simp [hSent]

theorem Sound.step
    (hSound : Sound alone s)
    (hStep : Step alone s s') :
    Sound alone s' := by
  cases hStep with
  | renew v hFresh =>
      exact {
        sent := fun i v' hSent =>
          List.mem_cons_of_mem v (hSound.sent i v' hSent)
        jar := by
          rintro v' ⟨⟩
          exact List.mem_cons_self
        waits := by
          rintro i v' hSent ⟨⟩
          exact absurd (hSound.sent i _ hSent) hFresh
        own := hSound.own
        once := hSound.once
      }
  | drop =>
      exact {
        sent := hSound.sent
        jar := by
          rintro v ⟨⟩
        waits := by
          rintro i v hSent ⟨⟩
        own := hSound.own
        once := hSound.once
      }
  | spend i v hJar hIdle hAlone =>
      -- whoever had spent the value would be waiting
      have hOwn : (i, v) ∉ s.sent := by
        intro hSent
        have hWaits := hSound.waits i v hSent hJar
        rw [hIdle] at hWaits
        cases hWaits
      have hNone : alone → ∀ j, (j, v) ∉ s.sent := by
        intro hExcluded j hSent
        have hWaits := hSound.waits j v hSent hJar
        rw [hAlone hExcluded j] at hWaits
        cases hWaits
      exact {
        sent := by
          intro j v' hSent
          rcases List.mem_cons.mp hSent with hNew | hOld
          · cases hNew
            exact hSound.jar v hJar
          · exact hSound.sent j v' hOld
        jar := hSound.jar
        waits := by
          intro j v' hSent hHere
          change s.jar = some v' at hHere
          rw [hJar] at hHere
          cases hHere
          by_cases hSame : j = i
          · subst hSame
            exact Function.update_self j (some v) s.spending
          · rcases List.mem_cons.mp hSent with hNew | hOld
            · cases hNew
              exact absurd rfl hSame
            · change
                Function.update s.spending i (some v) j =
                  some v
              rw [Function.update_of_ne hSame]
              exact hSound.waits j v hOld hJar
        own := by
          intro j
          by_cases hSame : i = j
          · subst hSame
            rw [List.filter_cons_of_pos (by simp),
              List.map_cons, List.nodup_cons]
            refine ⟨?_, hSound.own i⟩
            intro hMem
            rcases List.mem_map.mp hMem with
              ⟨⟨j, v'⟩, hFiltered, hValue⟩
            rcases List.mem_filter.mp hFiltered with
              ⟨hSent, hUser⟩
            change v' = v at hValue
            rw [← of_decide_eq_true hUser, ← hValue] at hOwn
            exact hOwn hSent
          · rw [List.filter_cons_of_neg (by simp [hSame])]
            exact hSound.own j
        once := by
          intro hExcluded
          rw [List.map_cons, List.nodup_cons]
          refine ⟨?_, hSound.once hExcluded⟩
          intro hMem
          rcases List.mem_map.mp hMem with
            ⟨⟨j, v'⟩, hSent, hValue⟩
          change v' = v at hValue
          subst hValue
          exact hNone hExcluded j hSent
      }
  | answer i v hFresh =>
      exact {
        sent := fun j v' hSent =>
          List.mem_cons_of_mem v (hSound.sent j v' hSent)
        jar := by
          rintro v' ⟨⟩
          exact List.mem_cons_self
        waits := by
          rintro j v' hSent ⟨⟩
          exact absurd (hSound.sent j _ hSent) hFresh
        own := hSound.own
        once := hSound.once
      }
  | refuse i =>
      exact {
        sent := hSound.sent
        jar := by
          rintro v ⟨⟩
        waits := by
          rintro j v hSent ⟨⟩
        own := hSound.own
        once := hSound.once
      }

end Custody

end Machine
