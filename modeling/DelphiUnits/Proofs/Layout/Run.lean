import Mathlib.Algebra.Ring.Int.Defs
import Mathlib.Data.List.Induction
import Mathlib.Order.Bounds.Basic
import DelphiUnits.Proofs.Layout

/-!
# What a run leaves

A writer can be given any script, also one that goes further out than it has gone in. Its text is
easy to account for: every command appends a piece, and the text is the pieces one after the other.

Its level is not the sum of the changes that were asked for, since a change that would lead below
zero is made in part. What is cut off then is never caught up on, so the level depends on the whole
run. The sums of the changes up to each place of the script tell by how much: if no change is stopped
at the greatest level, **the level is the last of these sums less the lowest of them**. The lowest sum
is at most zero, the sum of no changes, and the level is the plain sum exactly if none is negative.

## Main results

* `Writer.run_take_text`, `Writer.getElem?_pieces`: the text is made of the pieces that the commands
  append;
* `Writer.level_obey`: what a command does to the level;
* `Writer.level_run_eq`: the level after a run;
* `run_appends_and_levels`: these together, with what else commands leave alone.
-/

namespace DelphiUnits.Layout

/-! ### Pieces of text -/

namespace Writer

/-- **The pieces that a script appends**, one for each command. -/
def pieces (w : Writer) : List Command → List String
  | [] => []
  | c :: rest => appended w.unit w.level c :: (w.obey c).pieces rest

/-- **The text after any number of commands** is the text before and the pieces of these commands. -/
theorem run_take_text (w : Writer) (script : List Command) (k : Nat) :
    (w.run (script.take k)).text = w.text ++ String.join ((w.pieces script).take k) := by
  induction script generalizing w k with
  | nil => simp [pieces]
  | cons c rest ih =>
      cases k with
      | zero => simp
      | succ k =>
          have hobey : (w.obey c).text = w.text ++ appended w.unit w.level c := rfl
          rw [List.take_succ_cons, run_cons, ih, hobey, pieces, List.take_succ_cons,
            String.join_cons, String.append_assoc]

/-- **A piece is what its command appends** at the level at which the writer gets to it. -/
theorem getElem?_pieces (w : Writer) (script : List Command) (k : Nat) :
    (w.pieces script)[k]?
      = script[k]?.map (appended w.unit (w.run (script.take k)).level) := by
  induction script generalizing w k with
  | nil => rfl
  | cons c rest ih =>
      cases k with
      | zero => rfl
      | succ k => exact ih (w.obey c) k

/-- **A line may be written piece by piece**: indented parts and a newline do the same. -/
theorem run_line (w : Writer) (parts : List String) :
    w.run [.line (String.join parts)] = w.run [.indented parts, .newline] := by
  simp only [run_cons, run_nil, obey, levelAfter, appended, String.append_assoc]

end Writer

/-! ### Sums of changes -/

/-- The change of the level that a command asks for. -/
def Command.delta : Command → Int
  | .adjust delta => delta
  | _ => 0

/-- The **sum of the changes** that a script asks for. -/
def net (script : List Command) : Int :=
  (script.map Command.delta).sum

/-- The sums of the changes **up to each place** of a script, its start and its end among them. -/
def nets (script : List Command) : Set Int :=
  {s | ∃ before, before <+: script ∧ net before = s}

theorem net_concat (script : List Command) (c : Command) :
    net (script ++ [c]) = net script + c.delta := by
  simp [net]

/-- The end of a script is one more place. -/
theorem nets_concat (script : List Command) (c : Command) :
    nets (script ++ [c]) = insert (net (script ++ [c])) (nets script) := by
  ext s
  simp only [nets, Set.mem_ofPred_eq, Set.mem_insert_iff, List.prefix_concat_iff]
  constructor
  · rintro ⟨before, rfl | hbefore, rfl⟩
    · exact .inl rfl
    · exact .inr ⟨before, hbefore, rfl⟩
  · rintro (rfl | ⟨before, hbefore, rfl⟩)
    · exact ⟨_, .inl rfl, rfl⟩
    · exact ⟨before, .inr hbefore, rfl⟩

/-- At the start nothing is added up. -/
theorem zero_mem_nets (script : List Command) : 0 ∈ nets script :=
  ⟨[], List.nil_prefix, rfl⟩

/-! ### Levels -/

namespace Writer

/-- **Only a change of the level changes it.** -/
theorem level_obey_of_not_adjust (w : Writer) {c : Command} (h : ∀ delta, c ≠ .adjust delta) :
    (w.obey c).level = w.level := by
  cases c with
  | adjust delta => exact absurd rfl (h delta)
  | line | write | indented | newline => rfl

/-- **A command stops at zero**, if it does not at the greatest level. -/
theorem level_obey {w : Writer} {c : Command} (h : w.level + c.delta ≤ (maxLevel : Int)) :
    ((w.obey c).level : Int) = max 0 (w.level + c.delta) := by
  cases c with
  | adjust delta =>
      simp only [obey, levelAfter, adjustLevel, Command.delta] at h ⊢
      omega
  | line | write | indented | newline =>
      simp only [obey, levelAfter, Command.delta]
      omega

/-- No change of the level that the script asks for is **stopped at the greatest level**. -/
def StaysBelowTop (w : Writer) (script : List Command) : Prop :=
  ∀ before delta, before ++ [.adjust delta] <+: script →
    ((w.run before).level : Int) + delta ≤ maxLevel

variable {unit : Indent} {script : List Command}

/-- The level of a writer is a number of 64 bits. -/
theorem level_run_le (unit : Indent) (script : List Command) :
    ((empty unit).run script).level ≤ maxLevel := by
  induction script using List.reverseRecOn with
  | nil => exact Nat.zero_le _
  | append_singleton script c ih =>
      rw [run_append]
      cases c with
      | adjust delta => exact Nat.min_le_right _ _
      | line | write | indented | newline => exact ih

/-- **The level after a run** is the sum of the changes less the lowest sum on the way. -/
theorem level_run_eq (h : (empty unit).StaysBelowTop script) :
    ∃ lowest, IsLeast (nets script) lowest ∧
      (((empty unit).run script).level : Int) = net script - lowest := by
  induction script using List.reverseRecOn with
  | nil =>
      refine ⟨0, ⟨zero_mem_nets [], ?_⟩, rfl⟩
      rintro s ⟨before, hbefore, rfl⟩
      rw [List.prefix_nil.mp hbefore]
      exact Int.le_refl _
  | append_singleton script c ih =>
      obtain ⟨lowest, hleast, hlevel⟩ :=
        ih fun before delta hbefore => h before delta (hbefore.trans (List.prefix_append _ _))
      have hbelow : (((empty unit).run script).level : Int) + c.delta ≤ maxLevel := by
        cases c with
        | adjust delta => exact h script delta List.prefix_rfl
        | line | write | indented | newline =>
            have hle := level_run_le unit script
            simp only [Command.delta]
            omega
      -- A sum lower than all before it is the lowest one now, and then the level is zero.
      refine ⟨min (net (script ++ [c])) lowest, ?_, ?_⟩
      · rw [nets_concat]
        exact hleast.insert _
      · rw [run_append, run_cons, run_nil, level_obey hbelow, hlevel, net_concat]
        omega

/-- **The level is the plain sum** exactly if no sum on the way is negative. -/
theorem level_eq_net_iff {level lowest : Int} (hleast : IsLeast (nets script) lowest)
    (hlevel : level = net script - lowest) :
    level = net script ↔ ∀ s ∈ nets script, 0 ≤ s := by
  have hzero : lowest ≤ 0 := hleast.2 (zero_mem_nets script)
  constructor
  · intro heq s hs
    have hle : lowest ≤ s := hleast.2 hs
    omega
  · intro hnonneg
    have hlowest := hnonneg lowest hleast.1
    omega

end Writer

/-- **What a run leaves.** The text of a writer after any number of commands of a script is the pieces
of these commands one after the other, each the one that its command appends at the level it finds.
A line appends what indented parts that make it up and a newline do, in any state of a writer. No
command but a change of the level changes it.

The level never exceeds the greatest one. If no change is stopped at the greatest level, then it is
the sum of all changes less the lowest of the sums up to each place of the script; and it is the sum
of all changes exactly if none of these sums is negative. -/
theorem run_appends_and_levels (unit : Indent) (script : List Command) :
    (∀ k, ((Writer.empty unit).run (script.take k)).text
      = String.join (((Writer.empty unit).pieces script).take k)) ∧
    (∀ k, ((Writer.empty unit).pieces script)[k]?
      = script[k]?.map
          (Writer.appended unit ((Writer.empty unit).run (script.take k)).level)) ∧
    (∀ (w : Writer) text parts, String.join parts = text →
      w.run [.line text] = w.run [.indented parts, .newline]) ∧
    (∀ (w : Writer) c, (∀ delta, c ≠ .adjust delta) → (w.obey c).level = w.level) ∧
    ((Writer.empty unit).run script).level ≤ maxLevel ∧
    ((Writer.empty unit).StaysBelowTop script →
      ∃ lowest, IsLeast (nets script) lowest ∧
        (((Writer.empty unit).run script).level : Int) = net script - lowest ∧
        ((((Writer.empty unit).run script).level : Int) = net script ↔
          ∀ s ∈ nets script, 0 ≤ s)) := by
  refine ⟨?_, Writer.getElem?_pieces _ script, ?_, ?_, Writer.level_run_le unit script, ?_⟩
  · intro k
    rw [Writer.run_take_text]
    exact String.empty_append
  · intro w text parts htext
    rw [← htext, Writer.run_line]
  · intro w c hc
    exact w.level_obey_of_not_adjust hc
  · intro hbelow
    obtain ⟨lowest, hleast, hlevel⟩ := Writer.level_run_eq hbelow
    exact ⟨lowest, hleast, hlevel, Writer.level_eq_net_iff hleast hlevel⟩

/-- A script that goes three levels out after it went in by one, and in again. -/
def wideScript : List Command :=
  [.indent, .adjust (-3), .indented ["end", "."], .adjust 2]

/-- No change of the script is stopped at the greatest level. -/
theorem staysBelowTop_wideScript : (Writer.empty .tab).StaysBelowTop wideScript := by
  rintro before delta ⟨after, h⟩
  rcases before with _ | ⟨a, _ | ⟨b, _ | ⟨c, _ | ⟨d, before⟩⟩⟩⟩
  · obtain rfl : delta = 1 := Command.adjust.inj (List.cons.inj h).1
    decide
  · obtain ⟨rfl, hrest⟩ := List.cons.inj h
    obtain rfl : delta = -3 := Command.adjust.inj (List.cons.inj hrest).1
    decide
  · simp [wideScript] at h
  · obtain ⟨rfl, rfl, rfl, rfl, -⟩ : a = .indent ∧ b = .adjust (-3) ∧ c = .indented ["end", "."] ∧
        delta = 2 ∧ after = [] := by simpa [wideScript] using h
    decide
  · simp [wideScript] at h

/-- Two of the three levels out are cut off, so the level is two where the changes add up to
nothing. -/
theorem run_wideScript :
    (Writer.empty .tab).StaysBelowTop wideScript ∧
      ((Writer.empty .tab).run wideScript).level = 2 ∧ net wideScript = 0 ∧
      IsLeast (nets wideScript) (-2) ∧ ((Writer.empty .tab).run wideScript).text = "end." ∧
      (Writer.empty .tab).run [.line "end."]
        = (Writer.empty .tab).run [.indented ["end", "."], .newline] := by
  obtain ⟨htext, -, hline, -, -, hlevels⟩ := run_appends_and_levels .tab wideScript
  obtain ⟨lowest, hleast, hlevel, -⟩ := hlevels staysBelowTop_wideScript
  have htwo : ((Writer.empty .tab).run wideScript).level = 2 := by decide
  have hnet : net wideScript = 0 := by decide
  obtain rfl : lowest = -2 := by omega
  refine ⟨staysBelowTop_wideScript, htwo, hnet, hleast, ?_, hline _ _ _ (by decide)⟩
  have hpieces : String.join (((Writer.empty .tab).pieces wideScript).take 4) = "end." := by decide
  rw [← hpieces, ← htext 4]
  rfl

end DelphiUnits.Layout
