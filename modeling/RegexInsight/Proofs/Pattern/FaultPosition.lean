import Mathlib
import RegexInsight.Proofs.Pattern.Excerpt

/-! # Where faults stand

    The parser moves on with every step and never leaves the text.  A reader
    that fails points at a place it has come to: at its cursor, at the start
    of the construct that it reads, or at a group or a reference that was
    read before.  Hence a fault always stands in the text or right behind
    it, and it comes with a suggestion. -/

namespace RegexInsight

/-! ## Section 1: Faults of readers -/

/-- A fault of the reader stands at `bound` or before it. -/
def Read.FaultsBy {α : Type} (bound : Nat) (x : Read α) : Prop :=
  ∀ fault position, x = .error (.fault fault position) → position ≤ bound

namespace Read

variable {α β : Type} {bound : Nat}

@[simp] theorem faultsBy_ok (a : α) : FaultsBy bound (.ok a : Read α) := nofun

@[simp] theorem faultsBy_pure (a : α) : FaultsBy bound (pure a : Read α) := nofun

theorem faultsBy_fail {fault : Fault} {position : Nat} (h : position ≤ bound) :
    FaultsBy bound (Read.fail fault position : Read α) := by
  rintro _ _ ⟨⟩
  exact h

theorem faultsBy_number (text : Text) : FaultsBy bound (number text) := by
  unfold number
  split <;> nofun

theorem faultsBy_numeralOf (n : Nat) : FaultsBy bound (numeralOf n) := by
  unfold numeralOf
  split <;> nofun

theorem FaultsBy.bind {x : Read α} {f : α → Read β} (hx : x.FaultsBy bound)
    (hf : ∀ a, x = .ok a → (f a).FaultsBy bound) : (x >>= f).FaultsBy bound := by
  cases x with
  | ok a => exact hf a rfl
  | error e =>
    rintro fault position ⟨⟩
    exact hx fault position rfl

theorem faultsBy_ite {p : Prop} [Decidable p] {x y : Read α} (hx : p → x.FaultsBy bound)
    (hy : ¬ p → y.FaultsBy bound) : (if p then x else y).FaultsBy bound := by
  split
  next hp => exact hx hp
  next hp => exact hy hp

theorem faultsBy_forM {check : α → Read Unit} {items : List α}
    (h : ∀ item ∈ items, (check item).FaultsBy bound) : (items.forM check).FaultsBy bound := by
  induction items with
  | nil => exact faultsBy_ok ()
  | cons first rest ih =>
    obtain ⟨hfirst, hrest⟩ := List.forall_mem_cons.mp h
    exact hfirst.bind fun _ _ => ih hrest

end Read

open Read

/-- The text at the cursor ends at `bound` or before it. -/
def Cursor.EndsBy (cur : Cursor) (bound : Nat) : Prop :=
  cur.pos + cur.rest.length ≤ bound

namespace Cursor

variable {cur after : Cursor} {bound : Nat}

theorem EndsBy.pos_le (h : cur.EndsBy bound) : cur.pos ≤ bound :=
  Nat.le_trans (Nat.le_add_right _ _) h

theorem EndsBy.reaches (h : cur.EndsBy bound) (hreach : cur.Reaches after) : after.EndsBy bound :=
  hreach.end_eq.trans_le h

theorem EndsBy.passes (h : cur.EndsBy bound) (hpass : cur.Passes after) : after.EndsBy bound :=
  h.reaches hpass.reaches

theorem faultsBy_readName (terminator : Char) (h : cur.pos ≤ bound) :
    (cur.readName terminator).FaultsBy bound := by
  unfold readName
  split
  next => exact faultsBy_fail h
  next => exact faultsBy_ite (fun _ => faultsBy_ok _) fun _ => faultsBy_fail h

end Cursor

/-! ## Section 2: Escapes -/

namespace Escape

variable {start bound groups : Nat} {cur : Cursor} {modes : Modes}

theorem faultsBy_readHex (letter : Char) (width : Nat) (h : start ≤ bound) :
    (readHex start letter width cur).FaultsBy bound := by
  unfold readHex
  split
  next => exact faultsBy_fail h
  next =>
    refine faultsBy_ite (fun _ => faultsBy_fail h) fun _ => ?_
    exact faultsBy_ite (fun _ => faultsBy_fail h) fun _ => faultsBy_ok _

theorem faultsBy_octalCode (digits : Text) (h : start ≤ bound) :
    (octalCode start digits).FaultsBy bound :=
  faultsBy_ite (fun _ => faultsBy_fail h) fun _ => faultsBy_ok _

theorem faultsBy_readOctal (first : Char) (h : start ≤ bound) :
    (readOctal start first cur).FaultsBy bound :=
  (faultsBy_octalCode _ h).bind fun _ _ => faultsBy_pure _

theorem faultsBy_readProperty (negated : Bool) (h : start ≤ bound) :
    (readProperty start negated cur).FaultsBy bound := by
  have hname : (propertyName start cur).FaultsBy bound := by
    unfold propertyName
    split
    next => exact faultsBy_fail h
    next =>
      split
      next => split <;> simp [faultsBy_fail h]
      next => exact faultsBy_ite (fun _ => faultsBy_ok _) fun _ => faultsBy_fail h
  refine hname.bind fun found _ => ?_
  exact faultsBy_ite (fun _ => faultsBy_fail h) fun _ => faultsBy_pure _

theorem faultsBy_absoluteReference (target : Text) (h : start ≤ bound) :
    (absoluteReference start groups target).FaultsBy bound := by
  unfold absoluteReference
  split
  next =>
    refine (faultsBy_number _).bind fun offset _ => ?_
    exact faultsBy_ite (fun _ => faultsBy_fail h) fun _ => faultsBy_numeralOf _
  next => exact faultsBy_ite (fun _ => faultsBy_ok _) fun _ => faultsBy_fail h

theorem faultsBy_readNumbered (first : Char) (h : start ≤ bound) :
    (readNumbered modes start first cur).FaultsBy bound := by
  refine faultsBy_ite (fun _ => ?_) fun _ => faultsBy_ok _
  exact (faultsBy_octalCode _ h).bind fun _ _ => faultsBy_pure _

/-- A name stands behind the character that opens it. -/
theorem faultsBy_readNamed (h : start ≤ bound) (hcur : cur.EndsBy bound) :
    (readNamed start cur).FaultsBy bound := by
  unfold readNamed
  split
  next => exact faultsBy_fail h
  next hclosing =>
    obtain ⟨c, hhead, -⟩ := Option.bind_eq_some_iff.mp hclosing
    obtain ⟨rest, hrest⟩ := List.head?_eq_some_iff.mp hhead
    have hname := (hcur.passes (Cursor.passes_next hrest)).pos_le
    exact (Cursor.faultsBy_readName _ hname).bind fun _ _ => faultsBy_pure _

theorem faultsBy_readGeneral (h : start ≤ bound) :
    (readGeneral start groups cur).FaultsBy bound := by
  have hreference : ∀ target after, (backreference start groups target after).FaultsBy bound :=
    fun target after => (faultsBy_absoluteReference target h).bind fun _ _ => faultsBy_pure _
  have hcall : ∀ terminator, (readGeneral.call start groups cur terminator).FaultsBy bound := by
    intro terminator
    unfold readGeneral.call
    split
    next => exact faultsBy_fail h
    next =>
      refine faultsBy_ite (fun _ => faultsBy_ok _) fun _ => ?_
      exact (faultsBy_absoluteReference _ h).bind fun _ _ => faultsBy_pure _
  unfold readGeneral
  split
  next => exact hcall _
  next => exact hcall _
  next =>
    split
    next => exact faultsBy_fail h
    next => exact hreference _ _
  next => exact faultsBy_ite (fun _ => faultsBy_fail h) fun _ => hreference _ _

theorem faultsBy_read {rest : Text} (hrest : cur.rest = '\\' :: rest) (hcur : cur.EndsBy bound) :
    (read modes groups cur).FaultsBy bound := by
  have h := hcur.pos_le
  cases rest with
  | nil =>
    simp only [read, hrest, List.drop_succ_cons, List.drop_nil]
    exact faultsBy_fail h
  | cons c rest =>
    have hafter : (cur.advance 2).EndsBy bound := hcur.passes (Cursor.passes_next_two hrest)
    obtain ⟨f, hform, hread⟩ := exists_form c
    rw [hread modes groups cur rest hrest]
    cases hform with
    | shorthand _ | anchor _ | literal _ | quoted => exact faultsBy_ok _
    | property _ => exact (faultsBy_readProperty _ h).bind fun _ _ => faultsBy_pure _
    | hexadecimal _ => exact (faultsBy_readHex _ _ h).bind fun _ _ => faultsBy_pure _
    | octal => exact (faultsBy_readOctal _ h).bind fun _ _ => faultsBy_pure _
    | numbered _ => exact faultsBy_readNumbered _ h
    | named => exact faultsBy_readNamed h hafter
    | general => exact faultsBy_readGeneral h
    | unknown => exact faultsBy_fail h

end Escape

/-! ## Section 3: Bracket classes -/

namespace Bracket

variable {start bound : Nat} {cur : Cursor}

theorem faultsBy_readAtom (h : cur.pos ≤ bound) : (readAtom cur).FaultsBy bound := by
  rcases readAtom_cases cur with hfail | ⟨c, rest, -, -, hplain⟩ | ⟨c, rest, hrest⟩
  · rw [hfail]
    exact faultsBy_fail h
  · rw [hplain]
    exact faultsBy_ok _
  obtain ⟨f, hform, hread⟩ := exists_form c
  rw [hread cur rest hrest]
  cases hform with
  | pair _ => exact faultsBy_ok _
  | property _ => exact (Escape.faultsBy_readProperty _ h).bind fun _ _ => faultsBy_pure _
  | hexadecimal _ => exact (Escape.faultsBy_readHex _ _ h).bind fun _ _ => faultsBy_pure _
  | octal => exact (Escape.faultsBy_readOctal _ h).bind fun _ _ => faultsBy_pure _
  | unknown => exact faultsBy_fail h

theorem faultsBy_readItem (hcur : cur.EndsBy bound) : (readItem cur).FaultsBy bound := by
  refine (faultsBy_readAtom hcur.pos_le).bind fun ⟨low, afterLow⟩ hlow => ?_
  dsimp only
  split
  next hdash =>
    have hhigh : (afterLow.advance 1).EndsBy bound :=
      (hcur.passes (passes_of_readAtom hlow)).passes (Cursor.passes_next hdash)
    refine faultsBy_ite (fun _ => faultsBy_pure _) fun _ => ?_
    refine (faultsBy_readAtom hhigh.pos_le).bind fun ⟨high, afterHigh⟩ _ => ?_
    dsimp only
    split
    next => exact faultsBy_fail hcur.pos_le
    next => exact faultsBy_ite (fun _ => faultsBy_fail hcur.pos_le) fun _ => faultsBy_pure _
  next => exact faultsBy_pure _

theorem faultsBy_readMembers (h : start ≤ bound) (fuel : Nat) (isFirst : Bool) (members : Members)
    (hcur : cur.EndsBy bound) : (readMembers start fuel isFirst members cur).FaultsBy bound := by
  induction fuel generalizing isFirst members cur with
  | zero => exact faultsBy_fail h
  | succ fuel ih =>
    unfold readMembers
    split
    next => exact faultsBy_fail h
    next =>
      refine faultsBy_ite (fun _ => faultsBy_ok _) fun _ => ?_
      split
      next hname =>
        refine Read.FaultsBy.bind ?_ fun _ _ => ih _ _ (hcur.passes (passes_of_posixName? hname))
        unfold readPosix
        dsimp only
        split
        next => exact faultsBy_fail hcur.pos_le
        next => exact faultsBy_ok _
      next =>
        exact (faultsBy_readItem hcur).bind fun _ hitem =>
          ih _ _ (hcur.passes (passes_of_readItem hitem))

theorem faultsBy_read {modes : Modes} {rest : Text} (hrest : cur.rest = '[' :: rest)
    (hcur : cur.EndsBy bound) : (read modes cur).FaultsBy bound := by
  obtain ⟨negated, n, -, hlength, hopens, -⟩ := exists_opensWith hrest
  rw [hopens.read_eq]
  have hinside := hcur.reaches (Cursor.reaches_advance hlength)
  exact (faultsBy_readMembers hcur.pos_le _ _ _ hinside).bind fun _ _ => faultsBy_pure _

end Bracket

theorem Bounds.faultsBy_read? (bound : Nat) (cur : Cursor) : (read? cur).FaultsBy bound := by
  -- only the numbers can fail, and they carry no position
  have hupper : ∀ (least : Nat) (comma : Bool) (high : Text),
      (if !comma then return ⟨least, some least⟩
      else if high.isEmpty then return ⟨least, none⟩
      else return ⟨least, some (← Read.number high)⟩ : Read Bounds).FaultsBy bound := by
    intro least comma high
    refine faultsBy_ite (fun _ => faultsBy_pure _) fun _ => ?_
    refine faultsBy_ite (fun _ => faultsBy_pure _) fun _ => ?_
    exact (faultsBy_number _).bind fun _ _ => faultsBy_pure _
  have hwritten : ∀ low comma high, (ofWritten low comma high).FaultsBy bound := by
    intro low comma high
    unfold ofWritten
    cases low with
    | nil =>
      simp only [List.isEmpty_nil, if_true, pure_bind]
      exact hupper 0 comma high
    | cons c low =>
      simp only [List.isEmpty_cons, Bool.false_eq_true, if_false]
      exact (faultsBy_number _).bind fun least _ => hupper least comma high
  unfold read?
  split
  next => exact faultsBy_ok _
  next => exact faultsBy_ok _
  next => exact faultsBy_ok _
  next =>
    unfold readBraces
    split
    next => exact faultsBy_ok _
    next => exact (hwritten _ _ _).bind fun _ _ => faultsBy_pure _

theorem Frame.faultsBy_close {f : Frame} {bound : Nat} (count stop : Nat) (h : f.start ≤ bound) :
    (f.close count stop).FaultsBy bound := by
  unfold Frame.close
  dsimp only
  split
  next => exact faultsBy_ite (fun _ => faultsBy_fail h) fun _ => faultsBy_ok _
  next => exact faultsBy_ok _
  next => exact faultsBy_ok _
  next => exact faultsBy_ok _

/-! ## Section 4: Groups and quantifiers -/

namespace ParserState

variable {s : ParserState} {start bound : Nat} {cur : Cursor} {rest : Text}

theorem faultsBy_enterNamed (terminator : Char) (spelling : NameSpelling) (h : start ≤ bound)
    (hcur : cur.pos ≤ bound) : (s.enterNamed start cur terminator spelling).FaultsBy bound := by
  refine (Cursor.faultsBy_readName _ hcur).bind fun _ _ => ?_
  exact faultsBy_ite (fun _ => faultsBy_fail h) fun _ => faultsBy_pure _

theorem faultsBy_readNamedReference (label : Text → Label) (hcur : cur.pos ≤ bound) :
    (s.readNamedReference start cur label).FaultsBy bound :=
  (Cursor.faultsBy_readName _ hcur).bind fun _ _ => faultsBy_pure _

theorem faultsBy_readRecursion (h : start ≤ bound) :
    (s.readRecursion start cur).FaultsBy bound := by
  unfold readRecursion
  split
  next => exact faultsBy_fail h
  next =>
    refine faultsBy_ite (fun _ => faultsBy_ok _) fun _ => ?_
    refine faultsBy_ite (fun _ => ?_) fun _ => faultsBy_fail h
    exact (Escape.faultsBy_absoluteReference _ h).bind fun _ _ => faultsBy_pure _

theorem faultsBy_enterConditional (h : start ≤ bound) :
    (s.enterConditional start cur).FaultsBy bound := by
  unfold enterConditional
  split
  next => exact faultsBy_fail h
  next => exact faultsBy_ite (fun _ => faultsBy_ok _) fun _ => faultsBy_fail h

/-- An unknown flag stands behind the known ones. -/
theorem faultsBy_readFlags (hcur : cur.EndsBy bound) : (s.readFlags start cur).FaultsBy bound := by
  have hafter := (hcur.reaches (cur.reaches_run isFlagChar)).pos_le
  unfold readFlags
  dsimp only
  split
  next => exact faultsBy_ok _
  next => exact faultsBy_ok _
  next => exact faultsBy_fail hafter

/-- Each reader fails at its start or at a place that it reaches. -/
theorem faultsBy_readExtension (h : start ≤ bound) (hcur : cur.EndsBy bound) :
    (s.readExtension start cur).FaultsBy bound := by
  have hreads := s.readsExtension start cur
  generalize s.readExtension start cur = result at hreads
  cases hreads with
  | ended | unclosed | unknown => exact faultsBy_fail h
  | comment | opens => exact faultsBy_ok _
  | names _ hafter => exact faultsBy_enterNamed _ _ h (hcur.passes hafter).pos_le
  | backreference _ hafter | nameCall _ hafter =>
    exact faultsBy_readNamedReference _ (hcur.passes hafter).pos_le
  | conditional => exact faultsBy_enterConditional h
  | call => exact faultsBy_readRecursion h
  | flags => exact faultsBy_readFlags hcur

theorem faultsBy_readOpening (hrest : s.cur.rest = '(' :: rest) (hcur : s.cur.EndsBy bound) :
    s.readOpening.FaultsBy bound := by
  unfold readOpening
  dsimp only
  split
  next rest' hdrop =>
    have hopening : s.cur.rest = '(' :: '?' :: rest' := by
      rw [hrest] at hdrop ⊢
      exact congrArg _ hdrop
    exact faultsBy_readExtension hcur.pos_le (hcur.passes (Cursor.passes_next_two hopening))
  next => exact faultsBy_ok _

theorem faultsBy_readClosing (hcur : s.cur.EndsBy bound) (hstart : s.frame.start ≤ bound) :
    s.readClosing.FaultsBy bound := by
  unfold readClosing
  split
  next => exact faultsBy_fail hcur.pos_le
  next => exact (Frame.faultsBy_close _ _ hstart).bind fun _ _ => faultsBy_pure _

theorem faultsBy_applyQuantifier (bounds : Bounds) (hcur : s.cur.EndsBy bound) :
    (s.applyQuantifier bounds cur).FaultsBy bound := by
  have h := hcur.pos_le
  by_cases hbounds : bounds.Ordered
  · rw [applyQuantifier_of_ordered hbounds]
    refine faultsBy_ite (fun _ => faultsBy_fail h) fun _ => ?_
    split
    next => exact faultsBy_fail h
    next => exact faultsBy_ite (fun _ => faultsBy_ok _) fun _ => faultsBy_fail h
  · -- bounds in the wrong order are a fault before anything else is looked at
    simp only [Bounds.Ordered, not_forall, Nat.not_le] at hbounds
    obtain ⟨high, hmax, hlt⟩ := hbounds
    unfold applyQuantifier
    simp only [hmax, if_pos hlt]
    exact faultsBy_fail h

/-! ## Section 5: Steps and the end -/

/-- Groups that are open and references stand at `bound` or before it. -/
structure StandsBy (s : ParserState) (bound : Nat) : Prop where
  cur : s.cur.EndsBy bound
  starts : ∀ f ∈ s.frame :: s.outer, f.start ≤ bound
  references : ∀ r ∈ s.references, r.position ≤ bound

theorem faultsBy_readAt {c : Char} (hrest : s.cur.rest = c :: rest) (h : s.StandsBy bound) :
    (s.readAt c).FaultsBy bound := by
  have hbounds := Bounds.faultsBy_read? bound s.cur
  have hreads := readsAt hrest
  generalize s.readAt c = result at hreads
  cases hreads with
  | opening => exact faultsBy_readOpening hrest h.cur
  | closing => exact faultsBy_readClosing h.cur (h.starts s.frame List.mem_cons_self)
  | bar => exact faultsBy_ok _
  | unread hread =>
    rintro fault position ⟨⟩
    exact hbounds fault position hread
  | quantifier => exact faultsBy_applyQuantifier _ h.cur
  | bracket => exact (Bracket.faultsBy_read hrest h.cur).bind fun _ _ => faultsBy_pure _
  | escape => exact (Escape.faultsBy_read hrest h.cur).bind fun _ _ => faultsBy_pure _
  | single => exact faultsBy_ok _

theorem faultsBy_step {c : Char} (hrest : s.cur.rest = c :: rest) (h : s.StandsBy bound) :
    (s.step c).FaultsBy bound := by
  unfold step
  split
  next => exact faultsBy_ok _
  next => exact faultsBy_readAt hrest h

theorem faultsBy_finish (h : s.StandsBy bound) : s.finish.FaultsBy bound := by
  have hstart := h.starts s.frame List.mem_cons_self
  have hcheck : s.checkReferences.FaultsBy bound := by
    refine faultsBy_forM fun r hr => ?_
    have hposition := h.references r (List.mem_reverse.mp hr)
    refine faultsBy_ite (fun _ => (faultsBy_number _).bind fun number _ => ?_) fun _ => ?_
    · exact faultsBy_ite (fun _ => faultsBy_fail hposition) fun _ => faultsBy_pure _
    · exact faultsBy_ite (fun _ => faultsBy_ok _) fun _ => faultsBy_fail hposition
  unfold finish
  split
  next => exact faultsBy_fail hstart
  next =>
    refine (Frame.faultsBy_close _ _ hstart).bind fun _ _ => ?_
    exact hcheck.bind fun _ _ => faultsBy_pure _

/-- Every open group begins in front of the cursor. -/
theorem start_le_of_runsTo {text : Text} (h : (initial text).RunsTo s) :
    ∀ f ∈ s.frame :: s.outer, f.start ≤ s.cur.pos := by
  induction h with
  | refl =>
    intro f hf
    obtain rfl := List.mem_singleton.mp hf
    exact Nat.le_refl 0
  | @tail t s hruns hnext ih =>
    have hle : t.cur.pos ≤ s.cur.pos := Nat.le_of_lt hnext.move.passes.2
    have hplace := (RemembersTargets.of_runsTo hruns).place
    obtain ⟨hframe, houter⟩ := List.forall_mem_cons.mp ih
    have houter : ∀ f ∈ t.outer, f.start ≤ s.cur.pos := fun f hf => (houter f hf).trans hle
    -- the frame stays, a new one opens, or the one below it comes up
    rcases (hnext.change hplace).stack with
      ⟨hsame, -, hstart⟩ | ⟨opener, hopened, hinside⟩ | ⟨frame, outer, node, hout, hpushed, hsame⟩
    · refine List.forall_mem_cons.mpr ⟨?_, hsame ▸ houter⟩
      rw [hstart]
      exact hframe.trans hle
    · refine List.forall_mem_cons.mpr ⟨?_, hinside ▸ List.forall_mem_cons.mpr ⟨?_, houter⟩⟩
      · rw [hopened]
        exact hle
      · exact hframe.trans hle
    · rw [hout] at houter
      obtain ⟨hfirst, hrest⟩ := List.forall_mem_cons.mp houter
      refine List.forall_mem_cons.mpr ⟨?_, hsame ▸ hrest⟩
      rw [hpushed]
      exact hfirst

theorem StandsBy.of_runsTo {text : Text} (h : (initial text).RunsTo s) :
    s.StandsBy text.length where
  cur := by
    have hend := h.reaches.end_eq
    exact Nat.le_of_eq (hend.trans (Nat.zero_add _))
  starts f hf := (start_le_of_runsTo h f hf).trans h.pos_le_length
  references r hr := (position_lt_of_runsTo h r hr).le.trans h.pos_le_length

theorem exists_of_run_error {fuel : Nat} {e : ReadError} (h : run fuel s = .error e) :
    ∃ s' c tail, s.RunsTo s' ∧ s'.cur.rest = c :: tail ∧ s'.step c = .error e := by
  induction fuel generalizing s with
  | zero => nomatch h
  | succ fuel ih =>
    unfold run at h
    split at h
    next => nomatch h
    next c tail hrest =>
      split at h
      next t hstep =>
        obtain ⟨s', c', tail', hruns, hrest', hfail⟩ := ih h
        exact ⟨s', c', tail', .head ⟨c, tail, hrest, hstep⟩ hruns, hrest', hfail⟩
      next e' hstep =>
        obtain rfl := Except.error.inj h
        exact ⟨s, c, tail, .refl, hrest, hstep⟩

end ParserState

/-! ## Section 6: Parsing -/

theorem Fault.around_ne_nil {before : String} (hbefore : before ≠ "") (text : Text)
    (after : String) : around before text after ≠ [] := by
  intro hnil
  rw [around, pointsOf, List.map_eq_nil_iff, List.append_eq_nil_iff, List.append_eq_nil_iff] at hnil
  exact hbefore (String.toList_eq_nil_iff.mp hnil.1.1)

/-- Every suggestion says something. -/
theorem Fault.suggestion_ne_nil (fault : Fault) : fault.suggestion ≠ [] := by
  cases fault with
  | reversedRange low high => exact List.append_ne_nil_of_right_ne_nil _ (List.cons_ne_nil low [])
  | _ => exact around_ne_nil (by decide) _ _

namespace Pattern

open ParserState

variable {text : Text}

/-- A fault stands in the text or right behind it. -/
theorem faultsBy_read (text : Text) : (Pattern.read text).FaultsBy text.length := by
  refine Read.FaultsBy.bind ?_ fun last hrun => ?_
  · rintro fault position herror
    obtain ⟨s, c, tail, hruns, hrest, hstep⟩ := exists_of_run_error herror
    exact faultsBy_step hrest (.of_runsTo hruns) fault position hstep
  · obtain ⟨hruns, -⟩ := runsTo_of_run (s := initial text) (Nat.le_refl _) hrun
    exact (faultsBy_finish (.of_runsTo hruns)).bind fun _ _ => faultsBy_pure _

/-- Every iteration moves on within the text, so that there are at most as
    many as there are characters, and the run ends with a failure or behind
    the text.  A fault stands in the text or right behind it, carries the
    text, and has a suggestion. -/
theorem parse_progress (text : Text) :
    (∀ s s', (initial text).RunsTo s → Next s s' →
      s.cur.pos < s'.cur.pos ∧ s'.cur.pos ≤ text.length) ∧
    (∀ n (states : Nat → ParserState), states 0 = initial text →
      (∀ i < n, Next (states i) (states (i + 1))) → n ≤ text.length) ∧
    (∀ last, run text.length (initial text) = .ok last → last.cur.rest = []) ∧
    ∀ e, Pattern.parse text = .error (.malformed e) →
      e.position ≤ text.length ∧ e.suggestion ≠ [] ∧ e.pattern = text := by
  refine ⟨fun s s' hruns hnext => ⟨hnext.move.passes.2, RunsTo.pos_le_length (hruns.tail hnext)⟩,
    fun n states hfirst hnext => ?count, fun last hrun => ?ends, fun e he => ?fault⟩
  case count =>
    -- after `i` steps the cursor stands at `i` or behind it
    have hpos : ∀ i ≤ n, (initial text).RunsTo (states i) ∧ i ≤ (states i).cur.pos := by
      intro i hi
      induction i with
      | zero => exact ⟨hfirst ▸ .refl, Nat.zero_le _⟩
      | succ i ih =>
        obtain ⟨hruns, hle⟩ := ih (Nat.le_of_succ_le hi)
        exact ⟨hruns.tail (hnext i hi), Nat.lt_of_le_of_lt hle (hnext i hi).move.passes.2⟩
    obtain ⟨hruns, hle⟩ := hpos n (Nat.le_refl n)
    exact hle.trans hruns.pos_le_length
  case ends => exact (runsTo_of_run (s := initial text) (Nat.le_refl _) hrun).2
  case fault =>
    unfold Pattern.parse at he
    cases hread : Pattern.read text with
    | ok p => simp [hread, Except.mapError] at he
    | error failed =>
      cases failed with
      | numeral error => simp [hread, Except.mapError, failure] at he
      | fault fault position =>
        simp only [hread, Except.mapError, failure, Except.error.injEq,
          ParseFailure.malformed.injEq] at he
        subst he
        exact ⟨faultsBy_read text fault position hread, fault.suggestion_ne_nil, rfl⟩

/-- A step over a character, and the fault of a group head that ends too
    early. -/
theorem parse_progress_of_unclosed :
    (∃ s, Next (initial ['a', '(']) s ∧ 0 < s.cur.pos ∧ s.cur.pos ≤ 2) ∧
    ∃ e, Pattern.parse ['a', '(', '?'] = .error (.malformed e) ∧
      e.position ≤ 3 ∧ e.suggestion ≠ [] ∧ e.pattern = ['a', '(', '?'] := by
  obtain ⟨hmoves, -, -, -⟩ := parse_progress ['a', '(']
  obtain ⟨-, -, -, hfaults⟩ := parse_progress ['a', '(', '?']
  have hnext : Next (initial ['a', '(']) _ := ⟨'a', ['('], rfl, rfl⟩
  have hfault : Pattern.parse ['a', '(', '?'] = .error (.malformed ⟨.endOfGroupHead, 1, _⟩) := rfl
  exact ⟨⟨_, hnext, hmoves _ _ .refl hnext⟩, _, hfault, hfaults _ hfault⟩

end Pattern

end RegexInsight
