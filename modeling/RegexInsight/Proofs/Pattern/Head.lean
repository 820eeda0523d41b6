import Mathlib
import RegexInsight.Proofs.Pattern.Locality
import RegexInsight.Proofs.Pattern.Move

/-! # Heads of groups

    What an opening parenthesis begins shows in the characters behind it: a
    frame, a comment, a reference or flags.  `Head` names what they say, and
    `Head.act` is what that does to a state.  The characters alone decide on
    the head.  Wherever the same ones stand, and whatever the state is in
    which they are read, it is the same head. -/

namespace RegexInsight

namespace Cursor.Agrees

variable {cur other : Cursor} {n : Nat} {c : Char} {rest : Text}

/-- Two characters are the same if both belong to what the texts share. -/
theorem exists_second (h : cur.Agrees other n) (hrest : cur.rest = c :: rest) (hlt : 1 < n) :
    ∃ d tail tail', rest = d :: tail ∧ other.rest = c :: d :: tail' := by
  cases rest with
  | nil =>
    have hlength := h.length_le
    rw [hrest, List.length_singleton] at hlength
    omega
  | cons d tail =>
    obtain ⟨tail', htail'⟩ := h.exists_cons_cons hrest hlt
    exact ⟨d, tail, tail', rfl, htail'⟩

end Cursor.Agrees

/-! ## Section 1: Heads -/

/-- What an opening parenthesis begins, as far as the text says so. -/
inductive Head where
  | capturing
  | comment (inner : Text)
  | plain
  | atomic
  | lookaround (direction : LookDirection) (negated : Bool)
  | named (name : Text) (spelling : NameSpelling)
  | backreference (name : Text)
  | nameCall (name : Text)
  /-- A call of the whole pattern. -/
  | wholeCall
  | numberCall (target : Text)
  | conditional (condition : Text)
  | flags (text : Text)
  /-- A group with flags of its own. -/
  | flagGroup (text : Text)

namespace Head

variable {head : Head} {s s' : ParserState} {start : Nat} {after : Cursor}

/-- A group is referred to, by its name or its number. -/
def refers : Head → Bool
  | backreference _ | nameCall _ | numberCall _ | conditional _ => true
  | _ => false

/-- The group that is called is counted from here. -/
def isSigned : Head → Bool
  | numberCall target => target.head?.any isSign
  | _ => false

/-- The opener of a head without flags; a group that counts has this number. -/
def opener? (index : Nat) : Head → Option Opener
  | capturing => some (.group (.capturing index))
  | plain => some (.group (.nonCapturing none))
  | atomic => some (.group .atomic)
  | lookaround direction negated => some (.lookaround direction negated)
  | named name spelling => some (.group (.named index name spelling))
  | _ => none

/-- What a head from `start` to `after` does to a state. -/
def act (head : Head) (s : ParserState) (start : Nat) (after : Cursor) : Read ParserState :=
  match head with
  | capturing => .ok (s.enterCapturing start after)
  | comment _ => .ok (s.moveTo after)
  | plain => .ok (s.enter (.group (.nonCapturing none)) start s.frame.modes after)
  | atomic => .ok (s.enter (.group .atomic) start s.frame.modes after)
  | lookaround direction negated =>
    .ok (s.enter (.lookaround direction negated) start s.frame.modes after)
  | named name spelling =>
    if s.names.any fun entry => entry.1 == name then .fail (.duplicateName name) start
    else
      .ok ({ s with groups := s.groups + 1, names := s.names ++ [(name, s.groups + 1)] }.enter
        (.group (.named (s.groups + 1) name spelling)) start s.frame.modes after)
  | backreference name =>
    .ok (((s.refer name start).addLeaf ⟨.backreference name, start, after.pos⟩).moveTo after)
  | nameCall name =>
    .ok (((s.refer name start).addLeaf ⟨.recursion name, start, after.pos⟩).moveTo after)
  | wholeCall => .ok ((s.addLeaf ⟨.recursion ['R'], start, after.pos⟩).moveTo after)
  | numberCall target => do
    let reference ← Escape.absoluteReference start s.groups target
    return ((s.refer reference start).addLeaf ⟨.recursion target, start, after.pos⟩).moveTo after
  | conditional condition =>
    .ok ((s.refer condition start).enter (.conditional condition) start s.frame.modes after)
  | flags text =>
    .ok (({ s with frame := { s.frame with modes := s.frame.modes.apply text } }.addLeaf
      ⟨.flags text, start, after.pos⟩).moveTo after)
  | flagGroup text =>
    .ok (s.enter (.group (.nonCapturing (some text))) start (s.frame.modes.apply text) after)

theorem cur_of_act (h : head.act s start after = .ok s') : s'.cur = after := by
  cases head with
  | named name spelling =>
    obtain ⟨-, hstate⟩ := Read.guard_eq_ok.mp h
    obtain rfl := Except.ok.inj hstate
    rfl
  | numberCall target =>
    obtain ⟨reference, -, hstate⟩ := Read.bind_eq_ok.mp h
    obtain rfl := Except.ok.inj hstate
    rfl
  | _ =>
    obtain rfl := Except.ok.inj h
    rfl

end Head

/-! ## Section 2: Behind the mark -/

namespace ParserState

variable {s s' : ParserState} {cur : Cursor} {start m : Nat} {c d : Char} {rest : Text}

/-- Behind `(?` everything but a mark begins a call or flags. -/
theorem readExtension_of_not_mark (hrest : cur.rest = c :: rest) (hc : c ∉ groupMarks) :
    s.readExtension start cur =
      if showsCall c rest then s.readRecursion start cur
      else if isFlagChar c then s.readFlags start cur
      else .fail (.unknownExtension c) start := by
  simp only [groupMarks, List.mem_cons, List.not_mem_nil, or_false, not_or] at hc
  simp [readExtension, showsCall, hrest, hc]

/-- A mark begins neither a call nor flags. -/
theorem not_mem_groupMarks
    (h : (if showsCall c rest then s.readRecursion start cur
      else if isFlagChar c then s.readFlags start cur
      else .fail (.unknownExtension c) start) = .ok s') : c ∉ groupMarks := by
  intro hmem
  have hnone : groupMarks.all (fun c => !(c == 'R' || isDigitChar c ||
      (c == '+' || c == '-')) && !isFlagChar c) = true := by decide +kernel
  have hc := List.all_eq_true.mp hnone c hmem
  simp only [Bool.and_eq_true, Bool.not_eq_true', Bool.or_eq_false_iff] at hc
  simp [showsCall, hc] at h

/-- A name behind `(?<` begins with neither of the marks of a lookbehind. -/
theorem readExtension_angle (hrest : cur.rest = '<' :: d :: rest) (hequal : d ≠ '=')
    (hbang : d ≠ '!') :
    s.readExtension start cur = s.enterNamed start (cur.advance 1) '>' .angle := by
  simp [readExtension, hrest, hequal, hbang]

/-- The `n` characters at the cursor, behind `(?`, are read as this head
    wherever they stand. -/
structure ExtensionAt (cur : Cursor) (head : Head) (n : Nat) : Prop where
  pos : 0 < n
  length : n ≤ cur.rest.length
  comment : ∀ inner, head = .comment inner →
    ')' ∉ inner ∧ cur.rest.take n = '#' :: inner ++ [')']
  signed : head.refers = true → cur.rest.head?.any isSign = head.isSigned
  reads : ∀ (t : ParserState) (start : Nat) (other : Cursor), cur.Agrees other n →
    t.readExtension start other = head.act t start (other.advance n)

/-- The marks that say all about a head. -/
def markedHeads : List (Text × Head) :=
  [([':'], .plain), (['|'], .plain), (['>'], .atomic),
    (['='], .lookaround .ahead false), (['!'], .lookaround .ahead true),
    (['<', '='], .lookaround .behind false), (['<', '!'], .lookaround .behind true)]

theorem extensionAt_of_mark (mark : Text) (head : Head) (hhead : (mark, head) ∈ markedHeads)
    (hrest : cur.rest = mark ++ rest) : ExtensionAt cur head mark.length := by
  have hmarks : 0 < mark.length ∧ (∀ inner, head ≠ .comment inner) ∧ head.refers = false ∧
      ∀ (t : ParserState) (start : Nat) (other : Cursor) (behind : Text),
        other.rest = mark ++ behind →
          t.readExtension start other = head.act t start (other.advance mark.length) := by
    simp only [markedHeads, List.mem_cons, List.not_mem_nil, or_false, Prod.mk.injEq] at hhead
    rcases hhead with ⟨rfl, rfl⟩ | ⟨rfl, rfl⟩ | ⟨rfl, rfl⟩ | ⟨rfl, rfl⟩ | ⟨rfl, rfl⟩ |
      ⟨rfl, rfl⟩ | ⟨rfl, rfl⟩
    all_goals
      refine ⟨by decide, fun _ => Head.noConfusion, rfl, fun t start other behind hother => ?_⟩
      simp only [readExtension, hother, List.cons_append, List.nil_append]
      rfl
  obtain ⟨hsome, hcomment, hrefers, hreads⟩ := hmarks
  refine ⟨hsome, ?_, fun inner heq => absurd heq (hcomment inner), fun htrue => ?_,
    fun t start other hagrees => ?_⟩
  · rw [hrest, List.length_append]
    exact Nat.le_add_right _ _
  · rw [hrefers] at htrue
    exact Bool.noConfusion htrue
  · obtain ⟨behind, hbehind⟩ := hagrees.exists_append hrest (Nat.le_refl _)
    exact hreads t start other behind hbehind

/-- Another reader, which begins `m` characters further on, says what is read
    wherever two characters or more are shared. -/
def Defers (cur : Cursor) (m : Nat) (reader : ParserState → Nat → Cursor → Read ParserState) :
    Prop :=
  ∀ (t : ParserState) (start n : Nat) (other : Cursor), 1 < m + n → cur.Agrees other (m + n) →
    t.readExtension start other = reader t start (other.advance m)

theorem exists_extensionAt_of_comment {found : Text} {after : Cursor}
    (hrest : cur.rest = '#' :: rest) (hfound : cur.upTo? ')' = some (found, after)) :
    ∃ head n, ExtensionAt cur head n := by
  obtain ⟨hinner, ⟨tail, htail⟩, -⟩ := Cursor.upTo?_eq_some_iff.mp hfound
  obtain ⟨-, hlength, hcut⟩ := Cursor.upTo?_cut hfound
  -- what is found begins with the mark
  rw [hrest] at htail
  obtain ⟨inner, rfl⟩ : ∃ inner, found = '#' :: inner := by
    cases found with
    | nil => simp at htail
    | cons d inner => exact ⟨inner, by rw [(List.cons.inj htail).1]⟩
  refine ⟨.comment inner, _, Nat.succ_pos _, hlength, ?_, Bool.noConfusion, ?_⟩
  · rintro _ ⟨⟩
    refine ⟨fun hmem => hinner (List.mem_cons_of_mem _ hmem), ?_⟩
    have hsplit : cur.rest = ('#' :: inner ++ [')']) ++ tail := by rw [hrest, htail]; simp
    rw [hsplit]
    exact List.take_left' (by simp)
  · intro t start' other hagrees
    obtain ⟨rest', hrest'⟩ := hagrees.exists_cons hrest (Nat.succ_pos _)
    simp only [readExtension, hrest', hcut other hagrees]
    rfl

theorem exists_extensionAt_of_enterNamed {terminator : Char} {spelling : NameSpelling}
    (hm : 0 < m) (hdefers : Defers cur m fun t start other =>
      t.enterNamed start other terminator spelling)
    (h : s.enterNamed start (cur.advance m) terminator spelling = .ok s') :
    ∃ head n, ExtensionAt cur head n := by
  obtain ⟨⟨name, after⟩, hname, -⟩ := Read.bind_eq_ok.mp h
  obtain ⟨-, hrereads⟩ := Cursor.readName_cut hname
  have hlength := hrereads.length
  rw [Cursor.advance_rest, List.length_drop] at hlength
  refine ⟨.named name spelling, m + (name.length + 1), by omega, by omega,
    fun _ => Head.noConfusion, Bool.noConfusion, ?_⟩
  intro t start' other hagrees
  have hreads : t.readExtension start' other =
      t.enterNamed start' (other.advance m) terminator spelling :=
    hdefers t start' _ other (by omega) hagrees
  have hname' := hrereads.cut start' _ hagrees.advance
  rw [hreads, enterNamed, hname', Cursor.advance_advance]
  rfl

theorem exists_extensionAt_of_readNamedReference (head : Text → Head) {label : Text → Label}
    (hact : ∀ (name : Text) (t : ParserState) (start : Nat) (after : Cursor),
      (head name).act t start after =
        .ok (((t.refer name start).addLeaf ⟨label name, start, after.pos⟩).moveTo after))
    (hhead : ∀ name inner, head name ≠ .comment inner)
    (hunsigned : ∀ name, (head name).isSigned = false) (hm : 0 < m)
    (hsign : cur.rest.head?.any isSign = false)
    (hdefers : Defers cur m fun t start other => t.readNamedReference start other label)
    (h : s.readNamedReference start (cur.advance m) label = .ok s') :
    ∃ head n, ExtensionAt cur head n := by
  obtain ⟨⟨name, after⟩, hname, -⟩ := Read.bind_eq_ok.mp h
  obtain ⟨-, hrereads⟩ := Cursor.readName_cut hname
  have hlength := hrereads.length
  rw [Cursor.advance_rest, List.length_drop] at hlength
  refine ⟨head name, m + (name.length + 1), by omega, by omega,
    fun inner heq => absurd heq (hhead name inner), fun _ => hsign.trans (hunsigned name).symm, ?_⟩
  intro t start' other hagrees
  have hreads : t.readExtension start' other =
      t.readNamedReference start' (other.advance m) label :=
    hdefers t start' _ other (by omega) hagrees
  have hname' := hrereads.cut start' _ hagrees.advance
  rw [hreads, readNamedReference, hname', Cursor.advance_advance, hact]
  rfl

theorem exists_extensionAt_of_enterConditional (hm : 0 < m)
    (hsign : cur.rest.head?.any isSign = false)
    (hdefers : Defers cur m fun t start other => t.enterConditional start other)
    (h : s.enterConditional start (cur.advance m) = .ok s') :
    ∃ head n, ExtensionAt cur head n := by
  unfold enterConditional at h
  split at h
  next => simp at h
  next condition after hfound =>
    obtain ⟨hform, -⟩ := Read.guard_eq_ok'.mp h
    obtain ⟨-, hlength, hcut⟩ := Cursor.upTo?_cut hfound
    rw [Cursor.advance_rest, List.length_drop] at hlength
    refine ⟨.conditional condition, m + (condition.length + 1), by omega, by omega,
      fun _ => Head.noConfusion, fun _ => hsign, ?_⟩
    intro t start' other hagrees
    have hreads : t.readExtension start' other = t.enterConditional start' (other.advance m) :=
      hdefers t start' _ other (by omega) hagrees
    rw [hreads, enterConditional, hcut _ hagrees.advance, Cursor.advance_advance]
    dsimp only
    rw [if_pos hform]
    rfl

theorem exists_extensionAt_of_readRecursion (hrest : cur.rest = c :: rest) (hc : c ≠ ')')
    (hdefers : Defers cur 0 fun t start other => t.readRecursion start other)
    (h : s.readRecursion start cur = .ok s') : ∃ head n, ExtensionAt cur head n := by
  unfold readRecursion at h
  split at h
  next => simp at h
  next target after hfound =>
    obtain ⟨-, ⟨tail, htail⟩, -⟩ := Cursor.upTo?_eq_some_iff.mp hfound
    obtain ⟨-, hlength, hcut⟩ := Cursor.upTo?_cut hfound
    rw [hrest] at htail
    obtain ⟨d, written, rfl⟩ : ∃ d written, target = d :: written := by
      cases target with
      | nil => exact absurd (List.cons.inj htail).1 hc
      | cons d written => exact ⟨d, written, rfl⟩
    -- in a text that begins alike the same target is found
    have hread : ∀ (t : ParserState) (start : Nat) (other : Cursor),
        cur.Agrees other ((d :: written).length + 1) →
          t.readExtension start other = t.readRecursion start other ∧
            other.upTo? ')' = some (d :: written, other.advance ((d :: written).length + 1)) := by
      intro t start' other hagrees
      rw [List.length_cons] at hagrees
      refine ⟨hdefers t start' (written.length + 2) other (by omega) ?_, hcut other hagrees⟩
      rwa [Nat.zero_add]
    dsimp only at h
    split at h
    next hwhole =>
      refine ⟨.wholeCall, _, Nat.succ_pos _, hlength, fun _ => Head.noConfusion, Bool.noConfusion,
        fun t start' other hagrees => ?_⟩
      obtain ⟨hreads, hfound'⟩ := hread t start' other hagrees
      rw [hreads, readRecursion, hfound']
      dsimp only
      rw [if_pos hwhole, eq_of_beq hwhole]
      rfl
    next hwhole =>
      obtain ⟨hform, -⟩ := Read.guard_eq_ok'.mp h
      refine ⟨.numberCall (d :: written), _, Nat.succ_pos _, hlength, fun _ => Head.noConfusion,
        fun _ => ?_, fun t start' other hagrees => ?_⟩
      · rw [hrest, (List.cons.inj htail).1]
        rfl
      · obtain ⟨hreads, hfound'⟩ := hread t start' other hagrees
        rw [hreads, readRecursion, hfound']
        dsimp only
        rw [if_neg hwhole, if_pos hform]
        rfl

theorem exists_extensionAt_of_readFlags (hrest : cur.rest = c :: rest) (hc : isFlagChar c = true)
    (hdefers : Defers cur 0 fun t start other => t.readFlags start other)
    (h : s.readFlags start cur = .ok s') : ∃ head n, ExtensionAt cur head n := by
  obtain ⟨text, tail, htail, -, hend, hrun⟩ := cur.run_spec isFlagChar
  have hsome : 0 < text.length := by
    refine List.length_pos_iff.mpr fun hnil => ?_
    subst hnil
    have hnot := hend c (by rw [← List.nil_append tail, ← htail, hrest]; rfl)
    rw [hc] at hnot
    exact Bool.noConfusion hnot
  have hlength : text.length + tail.length = cur.rest.length := by
    rw [htail, List.length_append]
  have hbehind : (cur.advance text.length).rest = tail := by
    rw [Cursor.advance_rest, htail, List.drop_left]
  -- the flags and the character that ends them are the same
  have hread : ∀ (t : ParserState) (start : Nat) (other : Cursor) (stop : Char) (behind : Text),
      tail = stop :: behind → cur.Agrees other (text.length + 1) →
        t.readExtension start other = t.readFlags start other ∧
          other.run isFlagChar = (text, other.advance text.length) ∧
          ∃ behind', (other.advance text.length).rest = stop :: behind' := by
    intro t start' other stop behind hstop hagrees
    refine ⟨hdefers t start' (text.length + 1) other (by omega) ?_, ?_, ?_⟩
    · rwa [Nat.zero_add]
    · exact hagrees.run (by decide) (by decide) hrun (Nat.le_succ _)
    · exact hagrees.advance.exists_cons (hbehind.trans hstop) Nat.one_pos
  unfold readFlags at h
  rw [hrun] at h
  dsimp only at h
  split at h
  next behind hclose =>
    have htail' := hbehind.symm.trans hclose
    rw [htail', List.length_cons] at hlength
    refine ⟨.flags text, text.length + 1, Nat.succ_pos _, by omega, fun _ => Head.noConfusion,
      Bool.noConfusion, fun t start' other hagrees => ?_⟩
    obtain ⟨hreads, hrun', behind', hclose'⟩ := hread t start' other _ behind htail' hagrees
    simp only [hreads, readFlags, hrun', hclose', Cursor.advance_advance]
    rfl
  next behind hcolon =>
    have htail' := hbehind.symm.trans hcolon
    rw [htail', List.length_cons] at hlength
    refine ⟨.flagGroup text, text.length + 1, Nat.succ_pos _, by omega, fun _ => Head.noConfusion,
      Bool.noConfusion, fun t start' other hagrees => ?_⟩
    obtain ⟨hreads, hrun', behind', hcolon'⟩ := hread t start' other _ behind htail' hagrees
    simp only [hreads, readFlags, hrun', hcolon', Cursor.advance_advance]
    rfl
  next => simp at h

/-- What neither a mark nor a name begins. -/
theorem exists_extensionAt_of_other (hrest : cur.rest = c :: rest)
    (h : (if showsCall c rest then s.readRecursion start cur
      else if isFlagChar c then s.readFlags start cur
      else .fail (.unknownExtension c) start) = .ok s') : ∃ head n, ExtensionAt cur head n := by
  have hnot := not_mem_groupMarks h
  split at h
  next hcall =>
    have hc : c ≠ ')' := by
      rintro rfl
      have hno : isDigitChar ')' = false := by decide +kernel
      simp [showsCall, hno] at hcall
    -- the choice looks at two characters and no further
    refine exists_extensionAt_of_readRecursion hrest hc ?_ h
    intro t start' n other hlt hagrees
    obtain ⟨d, tail, tail', rfl, hrest'⟩ := hagrees.exists_second hrest hlt
    rw [readExtension_of_not_mark hrest' hnot, if_pos (by simpa [showsCall] using hcall)]
    rfl
  next hcall =>
    obtain ⟨hflag, h⟩ := Read.guard_eq_ok'.mp h
    refine exists_extensionAt_of_readFlags hrest hflag ?_ h
    intro t start' n other hlt hagrees
    obtain ⟨d, tail, tail', rfl, hrest'⟩ := hagrees.exists_second hrest hlt
    rw [readExtension_of_not_mark hrest' hnot, if_neg (by simpa [showsCall] using hcall),
      if_pos hflag]
    rfl

/-- What is read behind `(?` is a head. -/
theorem exists_extensionAt (h : s.readExtension start cur = .ok s') :
    ∃ head n, ExtensionAt cur head n := by
  unfold readExtension at h
  dsimp only at h
  split at h
  next => simp at h
  next rest hrest =>
    split at h
    next => simp at h
    next found after hfound => exact exists_extensionAt_of_comment hrest hfound
  next hrest =>
    exact ⟨_, _, extensionAt_of_mark [':'] .plain (by simp [markedHeads]) hrest⟩
  next hrest =>
    exact ⟨_, _, extensionAt_of_mark ['|'] .plain (by simp [markedHeads]) hrest⟩
  next hrest =>
    exact ⟨_, _, extensionAt_of_mark ['>'] .atomic (by simp [markedHeads]) hrest⟩
  next hrest =>
    exact ⟨_, _, extensionAt_of_mark ['='] (.lookaround .ahead false) (by simp [markedHeads]) hrest⟩
  next hrest =>
    exact ⟨_, _, extensionAt_of_mark ['!'] (.lookaround .ahead true) (by simp [markedHeads]) hrest⟩
  next hrest =>
    exact ⟨_, _, extensionAt_of_mark ['<', '='] (.lookaround .behind false) (by simp [markedHeads])
      hrest⟩
  next hrest =>
    exact ⟨_, _, extensionAt_of_mark ['<', '!'] (.lookaround .behind true) (by simp [markedHeads])
      hrest⟩
  next rest hequal hbang hrest =>
    refine exists_extensionAt_of_enterNamed Nat.one_pos ?_ h
    intro t start' n other hlt hagrees
    obtain ⟨d, tail, tail', rfl, hrest'⟩ := hagrees.exists_second hrest hlt
    -- the name does not begin with the mark of a lookbehind
    have hd : d ≠ '=' ∧ d ≠ '!' := by
      refine ⟨fun heq => ?_, fun heq => ?_⟩
      · exact hequal tail (heq ▸ rfl)
      · exact hbang tail (heq ▸ rfl)
    exact readExtension_angle hrest' hd.1 hd.2
  next hrest =>
    refine exists_extensionAt_of_enterNamed Nat.one_pos ?_ h
    intro t start' n other hlt hagrees
    obtain ⟨rest', hrest'⟩ := hagrees.exists_cons hrest (by omega)
    simp only [readExtension, hrest']
  next hrest =>
    refine exists_extensionAt_of_enterNamed Nat.two_pos ?_ h
    intro t start' n other hlt hagrees
    obtain ⟨rest', hrest'⟩ := hagrees.exists_cons_cons hrest hlt
    simp only [readExtension, hrest']
  -- the named references
  next hrest =>
    refine exists_extensionAt_of_readNamedReference .backreference (fun _ _ _ _ => rfl)
      (fun _ _ => Head.noConfusion) (fun _ => rfl) Nat.two_pos (by rw [hrest]; rfl) ?_ h
    intro t start' n other hlt hagrees
    obtain ⟨rest', hrest'⟩ := hagrees.exists_cons_cons hrest hlt
    simp only [readExtension, hrest']
  next hrest =>
    refine exists_extensionAt_of_readNamedReference .nameCall (fun _ _ _ _ => rfl)
      (fun _ _ => Head.noConfusion) (fun _ => rfl) Nat.two_pos (by rw [hrest]; rfl) ?_ h
    intro t start' n other hlt hagrees
    obtain ⟨rest', hrest'⟩ := hagrees.exists_cons_cons hrest hlt
    simp only [readExtension, hrest']
  next hrest =>
    refine exists_extensionAt_of_readNamedReference .nameCall (fun _ _ _ _ => rfl)
      (fun _ _ => Head.noConfusion) (fun _ => rfl) Nat.one_pos (by rw [hrest]; rfl) ?_ h
    intro t start' n other hlt hagrees
    obtain ⟨rest', hrest'⟩ := hagrees.exists_cons hrest (by omega)
    simp only [readExtension, hrest']
  next hrest =>
    refine exists_extensionAt_of_enterConditional Nat.one_pos (by rw [hrest]; rfl) ?_ h
    intro t start' n other hlt hagrees
    obtain ⟨rest', hrest'⟩ := hagrees.exists_cons hrest (by omega)
    simp only [readExtension, hrest']
  next hrest => exact exists_extensionAt_of_other hrest h

/-! ## Section 3: From the parenthesis on -/

/-- The `n` characters at the cursor, from an opening parenthesis on, are read
    as this head wherever they stand. -/
structure HeadAt (cur : Cursor) (head : Head) (n : Nat) : Prop where
  pos : 0 < n
  length : n ≤ cur.rest.length
  comment : ∀ inner, head = .comment inner →
    ')' ∉ inner ∧ cur.rest.take n = '(' :: '?' :: '#' :: inner ++ [')']
  signed : head.refers = true → showsSign cur.rest = head.isSigned
  reads : ∀ t : ParserState, cur.Agrees t.cur n →
    t.readOpening = head.act t t.cur.pos (t.cur.advance n)

/-- What is read from a parenthesis on is a head. -/
theorem exists_headAt (hrest : s.cur.rest = '(' :: rest) (h : s.readOpening = .ok s') :
    ∃ head n, HeadAt s.cur head n ∧ head.act s s.cur.pos (s.cur.advance n) = .ok s' := by
  have hhead : ∃ head n, HeadAt s.cur head n := by
    unfold readOpening at h
    dsimp only at h
    split at h
    next tail hquestion =>
      rw [hrest, List.drop_succ_cons, List.drop_zero] at hquestion
      subst hquestion
      obtain ⟨head, n, hextension⟩ := exists_extensionAt h
      have hlength := hextension.length
      have hpos := hextension.pos
      have hbehind : (s.cur.advance 2).rest = tail := by
        rw [Cursor.advance_rest, hrest]
        rfl
      refine ⟨head, 2 + n, by omega, ?_, fun inner heq => ?_, fun hrefers => ?_,
        fun t hagrees => ?_⟩
      · rw [Cursor.advance_rest, List.length_drop] at hlength
        omega
      · obtain ⟨hinner, htake⟩ := hextension.comment inner heq
        rw [hbehind] at htake
        rw [hrest, Nat.add_comm, List.take_succ_cons, List.take_succ_cons, htake]
        exact ⟨hinner, rfl⟩
      · rw [← hextension.signed hrefers, hbehind, hrest]
        rw [hbehind] at hlength
        cases tail with
        | nil => exact absurd hlength (by simp; omega)
        | cons c tail => rfl
      · obtain ⟨tail', htail'⟩ := hagrees.exists_cons_cons hrest (by omega)
        simp only [readOpening, htail', List.drop_succ_cons, List.drop_zero]
        rw [hextension.reads t _ _ hagrees.advance, Cursor.advance_advance]
    next hquestion =>
      refine ⟨.capturing, 1, Nat.one_pos, by simp [hrest], fun _ => Head.noConfusion,
        Bool.noConfusion, fun t hagrees => ?_⟩
      -- what follows the shared characters may be a parenthesis, but no question mark
      unfold readOpening
      dsimp only
      split
      next tail htail =>
        have hhead : '?' ∈ (t.cur.advance 1).rest.head? := by
          rw [Cursor.advance_rest, htail]
          rfl
        rcases (hagrees.advance (m := 1) (n := 0)).mem_head? hhead with hmem | hparen
        · obtain ⟨tail', htail'⟩ := List.head?_eq_some_iff.mp hmem
          exact absurd htail' (hquestion tail')
        · exact absurd hparen (by decide)
      next => rfl
  obtain ⟨head, n, hhead⟩ := hhead
  exact ⟨head, n, hhead, (hhead.reads s (.refl hhead.length)).symm.trans h⟩

end ParserState

end RegexInsight
