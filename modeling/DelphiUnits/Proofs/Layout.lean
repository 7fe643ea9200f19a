import DelphiUnits.Layout

/-!
# Lines that scripts lay out

A script changes the level of its writer as it goes, so what it writes is not the sum of what
its parts write on their own. Seen from outside, though, a well-made script has two properties
that compose: it **lays out** a list of lines, each with a depth of its own, and it leaves the
level as it found it.

`LaysOut level script lines` says so for a script that starts at `level`. It also says that the
level **moves freely** on the way: no change of it is stopped, neither at zero nor at the
greatest level. Since a writer that is stopped goes on without a sign of it, this is the part
that the written text alone does not show.

## Main results

* `LaysOut.append`, `LaysOut.nested`, `LaysOut.flatMap`: layouts compose as scripts do;
* `LaysOut.run_text`, `LaysOut.run_level`: what a writer has after the script;
* `MovesFreely.level_adjust`: a change of the level anywhere in the script is made in full.
-/

namespace DelphiUnits

/-- An indentation is the text of one level, once for each level. -/
theorem Indent.times_eq (i : Indent) (level : Nat) :
    i.times level = String.join (List.replicate level i.text) := rfl

namespace Layout

/-! ### Lines -/

/-- A line of a text: how far in it stands, and what it says. -/
structure Line where
  /-- The number of levels it is indented by. -/
  depth : Nat
  /-- The text after the indentation. -/
  text : String
  deriving DecidableEq, Repr

namespace Line

/-- A line with nothing on it. -/
def blank : Line := ⟨0, ""⟩

/-- A line as it is written with a unit of indentation: the text of one level once for each level,
the text of the line, and a newline. -/
def render (unit : Indent) (l : Line) : String :=
  String.join (List.replicate l.depth unit.text) ++ l.text ++ "\n"

/-- Lines written one below the other. -/
def renderAll (unit : Indent) (lines : List Line) : String :=
  String.join (lines.map (render unit))

@[simp] theorem renderAll_nil (unit : Indent) : renderAll unit [] = "" := rfl

@[simp] theorem renderAll_append (unit : Indent) (a b : List Line) :
    renderAll unit (a ++ b) = renderAll unit a ++ renderAll unit b := by
  simp only [renderAll, List.map_append, String.join_append]

@[simp] theorem renderAll_singleton (unit : Indent) (l : Line) :
    renderAll unit [l] = l.render unit := by
  simp only [renderAll, List.map_cons, List.map_nil, String.join_cons, String.join_nil,
    String.append_empty]

/-- A line with nothing on it is a newline, whatever the unit of indentation. -/
theorem render_blank (unit : Indent) : blank.render unit = "\n" := rfl

end Line

/-! ### Runs -/

namespace Writer

@[simp] theorem run_nil (w : Writer) : w.run [] = w := rfl

@[simp] theorem run_cons (w : Writer) (c : Command) (script : List Command) :
    w.run (c :: script) = (w.obey c).run script := rfl

/-- Running two scripts one after the other is running them as one. -/
@[simp] theorem run_append (w : Writer) (s t : List Command) :
    w.run (s ++ t) = (w.run s).run t :=
  List.foldl_append

/-- A run never changes the unit of indentation. -/
@[simp] theorem run_unit (w : Writer) (script : List Command) :
    (w.run script).unit = w.unit := by
  induction script generalizing w with
  | nil => rfl
  | cons c rest ih => exact ih (w.obey c)

/-- The level after a run depends on the level before it only. -/
theorem run_level (w : Writer) (script : List Command) :
    (w.run script).level = script.foldl levelAfter w.level := by
  induction script generalizing w with
  | nil => rfl
  | cons c rest ih => exact ih (w.obey c)

end Writer

/-! ### Free movement -/

/-- Whether a command at a level changes the level by as much as it says. -/
def Command.IsFree (level : Nat) : Command → Prop
  | .adjust delta => (adjustLevel level delta : Int) = level + delta
  | _ => True

/-- A script **moves freely** from a level if none of its changes of the level is stopped. -/
def MovesFreely : Nat → List Command → Prop
  | _, [] => True
  | level, c :: rest => c.IsFree level ∧ MovesFreely (Writer.levelAfter level c) rest

/-- Scripts that move freely do so one after the other. -/
theorem MovesFreely.append {level : Nat} {s t : List Command} (hs : MovesFreely level s)
    (ht : MovesFreely (s.foldl Writer.levelAfter level) t) : MovesFreely level (s ++ t) := by
  induction s generalizing level with
  | nil => exact ht
  | cons c rest ih => exact ⟨hs.1, ih hs.2 ht⟩

/-- What follows a part of a script that moves freely moves freely from where the part ends. -/
theorem MovesFreely.of_append {level : Nat} {s t : List Command}
    (h : MovesFreely level (s ++ t)) : MovesFreely (s.foldl Writer.levelAfter level) t := by
  induction s generalizing level with
  | nil => exact h
  | cons c rest ih => exact ih h.2

/-- **A change of the level is made in full**, wherever it stands in the script. -/
theorem MovesFreely.level_adjust {w : Writer} {before after : List Command} {delta : Int}
    (h : MovesFreely w.level (before ++ .adjust delta :: after)) :
    ((w.run (before ++ [.adjust delta])).level : Int) = (w.run before).level + delta := by
  have hfree := h.of_append.1
  rw [← Writer.run_level] at hfree
  rw [Writer.run_append]
  exact hfree

/-- A script that moves freely never goes back out at level zero. -/
theorem MovesFreely.level_pos {w : Writer} {before after : List Command}
    (h : MovesFreely w.level (before ++ .dedent :: after)) : 0 < (w.run before).level := by
  have hadjust := h.level_adjust
  omega

/-- Going in is free below the greatest level. -/
theorem isFree_indent {level : Nat} (h : level < maxLevel) : Command.indent.IsFree level := by
  simp only [Command.indent, Command.IsFree, adjustLevel]
  omega

/-- Going in below the greatest level is one level. -/
theorem levelAfter_indent {level : Nat} (h : level < maxLevel) :
    Writer.levelAfter level .indent = level + 1 := by
  simp only [Command.indent, Writer.levelAfter, adjustLevel]
  omega

/-- Going back out is free above level zero. -/
theorem isFree_dedent {level : Nat} (h : level < maxLevel) :
    Command.dedent.IsFree (level + 1) := by
  simp only [Command.dedent, Command.IsFree, adjustLevel]
  omega

/-- Going back out above level zero is one level. -/
theorem levelAfter_dedent {level : Nat} (h : level < maxLevel) :
    Writer.levelAfter (level + 1) .dedent = level := by
  simp only [Command.dedent, Writer.levelAfter, adjustLevel]
  omega

/-! ### Layouts -/

/-- A script **lays out** lines from a level: it writes the lines and nothing else, whatever
the unit of indentation, comes back to the level, and moves freely on the way. -/
structure LaysOut (level : Nat) (script : List Command) (lines : List Line) : Prop where
  /-- The lines are what is written. -/
  writes : ∀ w : Writer, w.level = level →
    (w.run script).text = w.text ++ Line.renderAll w.unit lines
  /-- The script ends at the level it started from. -/
  returns : script.foldl Writer.levelAfter level = level
  /-- No change of the level is stopped. -/
  free : MovesFreely level script

namespace LaysOut

variable {level : Nat} {s t : List Command} {a b : List Line}

/-- The text after a run from a fresh writer. -/
theorem run_text {unit : Indent} (h : LaysOut 0 s a) :
    ((Writer.empty unit).run s).text = Line.renderAll unit a := by
  rw [h.writes (Writer.empty unit) rfl]
  exact String.empty_append

/-- The level after a run. -/
theorem run_level (h : LaysOut level s a) {w : Writer} (hw : w.level = level) :
    (w.run s).level = level := by
  rw [Writer.run_level, hw, h.returns]

/-- An empty script lays out nothing. -/
protected theorem nil (level : Nat) : LaysOut level [] [] where
  writes w _ := by simp
  returns := rfl
  free := trivial

/-- A line command lays out a line at the level. -/
protected theorem line (level : Nat) (text : String) :
    LaysOut level [.line text] [⟨level, text⟩] where
  writes w hw := by
    rw [Line.renderAll_singleton, Line.render, ← Indent.times_eq, ← hw]
    rfl
  returns := rfl
  free := ⟨trivial, trivial⟩

/-- A blank command lays out a blank line **at any level**. -/
protected theorem blank (level : Nat) : LaysOut level [.blank] [.blank] where
  writes w _ := by
    rw [Line.renderAll_singleton, Line.render_blank]
    rfl
  returns := rfl
  free := ⟨trivial, trivial⟩

/-- A line may be written **piece by piece**: indented parts, more parts, and a newline lay out
the line that the parts make up. -/
protected theorem pieces (level : Nat) (first : List String) (more : List (List String)) :
    LaysOut level (.indented first :: (more.map .write ++ [.newline]))
      [⟨level, String.join (first ++ more.flatten)⟩] where
  writes w hw := by
    have hmore (v : Writer) :
        (v.run (more.map .write)).text = v.text ++ String.join more.flatten := by
      induction more generalizing v with
      | nil => exact String.append_empty.symm
      | cons parts rest ih =>
          rw [List.map_cons, Writer.run_cons, ih, List.flatten_cons, String.join_append,
            ← String.append_assoc]
          rfl
    have hnewline (v : Writer) : (v.run [.newline]).text = v.text ++ "\n" := rfl
    have hfirst : (w.obey (.indented first)).text = w.text ++
        (String.join (List.replicate level w.unit.text) ++ String.join first) := by
      rw [← Indent.times_eq, ← hw]
      rfl
    rw [Writer.run_cons, Writer.run_append, hnewline, hmore, hfirst, Line.renderAll_singleton,
      Line.render, String.join_append]
    simp only [String.append_assoc]
  returns := by
    have hmore : (more.map .write).foldl Writer.levelAfter level = level := by
      induction more with
      | nil => rfl
      | cons parts rest ih => exact ih
    rw [List.foldl_cons, List.foldl_append]
    exact hmore
  free := by
    refine ⟨trivial, MovesFreely.append ?_ ⟨trivial, trivial⟩⟩
    change MovesFreely level (more.map .write)
    induction more with
    | nil => exact trivial
    | cons parts rest ih => exact ⟨trivial, ih⟩

/-- Two layouts at one level, one after the other. -/
protected theorem append (hs : LaysOut level s a) (ht : LaysOut level t b) :
    LaysOut level (s ++ t) (a ++ b) where
  writes w hw := by
    rw [Writer.run_append, ht.writes _ (hs.run_level hw), hs.writes w hw, Writer.run_unit,
      Line.renderAll_append, String.append_assoc]
  returns := by rw [List.foldl_append, hs.returns, ht.returns]
  free := hs.free.append (by rw [hs.returns]; exact ht.free)

/-- A line, then a layout at the same level. -/
protected theorem cons (text : String) (ht : LaysOut level t b) :
    LaysOut level (.line text :: t) (⟨level, text⟩ :: b) :=
  (LaysOut.line level text).append ht

/-- A nested script lays out **what it lays out one level further in**. -/
protected theorem nested (hlevel : level < maxLevel) (hs : LaysOut (level + 1) s a) :
    LaysOut level (nested s) a where
  writes w hw := by
    have hin : (w.obey .indent).level = level + 1 := by
      rw [← levelAfter_indent hlevel, ← hw]
      rfl
    have hout (v : Writer) : (v.obey .dedent).text = v.text := String.append_empty
    have hsame : (w.obey .indent).text = w.text := String.append_empty
    rw [Layout.nested, List.cons_append, Writer.run_cons, Writer.run_append, Writer.run_cons,
      Writer.run_nil, hout, hs.writes _ hin, hsame]
    rfl
  returns := by
    rw [Layout.nested, List.cons_append, List.foldl_cons, levelAfter_indent hlevel,
      List.foldl_append, hs.returns]
    exact levelAfter_dedent hlevel
  free := by
    refine ⟨isFree_indent hlevel, ?_⟩
    rw [levelAfter_indent hlevel]
    refine hs.free.append ?_
    rw [hs.returns]
    exact ⟨isFree_dedent hlevel, trivial⟩

/-- The scripts of items lay out the lines of the items. -/
protected theorem flatMap {α : Type} {script : α → List Command} {lines : α → List Line}
    (xs : List α) (h : ∀ x, LaysOut level (script x) (lines x)) :
    LaysOut level (xs.flatMap script) (xs.flatMap lines) := by
  induction xs with
  | nil => exact .nil level
  | cons x xs ih => exact (h x).append ih

/-- Line commands for items lay out a line for each item. -/
protected theorem map_line {α : Type} (text : α → String) (level : Nat) (xs : List α) :
    LaysOut level (xs.map fun x => .line (text x)) (xs.map fun x => ⟨level, text x⟩) := by
  induction xs with
  | nil => exact .nil level
  | cons x xs ih => exact .cons (text x) ih

end LaysOut

end Layout

end DelphiUnits
