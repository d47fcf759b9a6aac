import TemplateInventory.FilePattern
import Mathlib.Data.List.Infix
import Mathlib.Tactic.SplitIfs
/-!
# Patterns with one star

A pattern of plain characters and one star between them matches just the names that
start and end with what stands around the star (`matchesName_star`). Plain characters
in front of a glob that can be read make another one (`parse_plain_append`): what may
come next depends on the groups and the set that are open, and on nothing else that
was read.
-/

namespace TemplateInventory.Glob

/-! ## Marks -/

section
variable {bs expected : List UInt8} {f : List UInt8 → Bool}

theorem headD_map_tails (f : List UInt8 → Bool) (bs : List UInt8) :
    (bs.tails.map f).headD false = f bs := by
  cases bs <;> rfl

theorem emptyMarks_eq (bs : List UInt8) : emptyMarks bs = bs.tails.map List.isEmpty := by
  induction bs with
  | nil => rfl
  | cons b bs ih => rw [emptyMarks, ih]; rfl

theorem afterByte_tails (isIt : UInt8 → Bool) (f : List UInt8 → Bool) (bs : List UInt8) :
    afterByte isIt bs (bs.tails.map f) = bs.tails.map fun
      | [] => false
      | b :: rest => isIt b && f rest := by
  induction bs with
  | nil => rfl
  | cons b bs ih => rw [List.tails_cons, List.map_cons, afterByte, ih, headD_map_tails]; rfl

theorem afterBytes_tails (expected bs : List UInt8) (f : List UInt8 → Bool) :
    afterBytes expected bs (bs.tails.map f) =
      bs.tails.map fun s => expected.isPrefixOf s && f (s.drop expected.length) := by
  induction expected with
  | nil => simp [afterBytes]
  | cons e expected ih =>
    change afterByte (· == e) bs (afterBytes expected bs (bs.tails.map f)) = _
    rw [ih, afterByte_tails]
    refine List.map_congr_left fun s _ => ?_
    cases s with
    | nil => rfl
    | cons b rest =>
      simp only [List.isPrefixOf, List.length_cons, List.drop_succ_cons, Bool.and_assoc]
      rw [Bool.beq_comm]

theorem afterAnything_tails (f : List UInt8 → Bool) (bs : List UInt8) :
    afterAnything (bs.tails.map f) = bs.tails.map fun s => s.tails.any f := by
  induction bs with
  | nil => rfl
  | cons b bs ih =>
    rw [List.tails_cons, List.map_cons, afterAnything]
    simp only [ih, headD_map_tails, List.map_cons, List.tails_cons, List.any_cons]

end

/-! ## Plain characters -/

/-- Whether a character stands for itself wherever no set is open. -/
def IsPlain (c : Char) : Prop := c ∉ ['?', '*', '[', '\x7b', '\x7d', '\\']

instance : DecidablePred IsPlain := fun c =>
  inferInstanceAs (Decidable (c ∉ ['?', '*', '[', '\x7b', '\x7d', '\\']))

/-- The tokens that stand for characters. -/
def literals (cs : List Char) : List Token := cs.map .literal

theorem toList_eq (bs : ByteArray) : bs.toList = bs.data.toList := by
  have hloop : ∀ n i r, bs.size - i = n →
      ByteArray.toList.loop bs i r = r.reverse ++ bs.data.toList.drop i := by
    intro n
    induction n with
    | zero =>
      intro i r hn
      have hi : bs.data.toList.length ≤ i := Nat.le_of_sub_eq_zero hn
      have hsize : ¬ i < bs.size := Nat.not_lt.2 hi
      rw [ByteArray.toList.loop, if_neg hsize, List.drop_eq_nil_of_le hi, List.append_nil]
    | succ n ih =>
      intro i r hn
      have hsize : i < bs.size := Nat.lt_of_sub_eq_succ hn
      have hi : i < bs.data.toList.length := hsize
      have hget : bs.get! i = bs.data.toList[i] := getElem!_pos bs.data i hi
      rw [ByteArray.toList.loop, if_pos hsize, ih (i + 1) _ (by omega), hget,
        List.drop_eq_getElem_cons hi, List.reverse_cons, List.append_assoc]
      rfl
  exact (hloop _ 0 [] rfl).trans rfl

theorem toUTF8_append (s s' : String) :
    (s ++ s').toUTF8.toList = s.toUTF8.toList ++ s'.toUTF8.toList := by
  simp only [toList_eq, String.toUTF8_eq_toByteArray, String.toByteArray_append,
    ByteArray.toList_data_append]

theorem beforeAll_literals (bs : List UInt8) (ms : List Bool) (cs : List Char) (ts : List Token) :
    beforeAll bs ms (literals cs ++ ts) =
      afterBytes (String.ofList cs).toUTF8.toList bs (beforeAll bs ms ts) := by
  induction cs with
  | nil => simp [literals, afterBytes, toList_eq]
  | cons c cs ih =>
    have hc : String.ofList (c :: cs) = String.singleton c ++ String.ofList cs := by
      rw [← String.toList_inj]
      simp
    change Token.before bs (beforeAll bs ms (literals cs ++ ts)) (.literal c) = _
    rw [Token.before, ih, hc, toUTF8_append]
    exact (List.foldr_append).symm

/-- A name matches if it starts and ends with what stands around the star. -/
theorem matchesName_star (front back : List Char) (name : String) :
    matchesName (literals front ++ .anything :: literals back) name = true ↔
      ∃ middle, name.toUTF8.toList = (String.ofList front).toUTF8.toList ++ middle ++
        (String.ofList back).toUTF8.toList := by
  have hmarks : matchesName (literals front ++ .anything :: literals back) name =
      (beforeAll name.toUTF8.toList (emptyMarks name.toUTF8.toList)
        (literals front ++ .anything :: literals back)).headD false := by
    unfold matchesName
    split
    · next h => cases front <;> cases h
    · rfl
  have hback : beforeAll name.toUTF8.toList (emptyMarks name.toUTF8.toList) (literals back) =
      afterBytes (String.ofList back).toUTF8.toList name.toUTF8.toList
        (emptyMarks name.toUTF8.toList) := by
    rw [← List.append_nil (literals back), beforeAll_literals]
    rfl
  have hstar : ∀ bs ms ts, beforeAll bs ms (.anything :: ts) = afterAnything (beforeAll bs ms ts) :=
    fun bs ms ts => by rw [beforeAll, Token.before]
  rw [hmarks, beforeAll_literals, hstar, hback, emptyMarks_eq, afterBytes_tails, afterAnything_tails,
    afterBytes_tails, headD_map_tails]
  simp only [Bool.and_eq_true, List.isPrefixOf_iff_prefix, List.any_eq_true, List.mem_tails,
    List.isEmpty_iff]
  constructor
  · rintro ⟨⟨rest, hrest⟩, s, ⟨middle, hmiddle⟩, ⟨tail, htail⟩, hend⟩
    rw [← hrest, List.drop_left] at hmiddle
    rw [← htail, List.drop_left] at hend
    refine ⟨middle, ?_⟩
    rw [← hrest, ← hmiddle, ← htail, hend, List.append_nil, List.append_assoc]
  · rintro ⟨middle, hname⟩
    refine ⟨⟨_, by rw [hname, List.append_assoc]⟩, _, ?_, ⟨[], List.append_nil _⟩,
      List.drop_length⟩
    rw [hname, List.append_assoc, List.drop_left]
    exact ⟨middle, rfl⟩

/-- In particular a text with something between the two ends. -/
theorem matchesName_append (front back : List Char) (middle : String) :
    matchesName (literals front ++ .anything :: literals back)
      (String.ofList front ++ middle ++ String.ofList back) = true :=
  (matchesName_star front back _).2 ⟨middle.toUTF8.toList, by rw [toUTF8_append, toUTF8_append]⟩

/-! ## Reading -/

section
variable {r r' : Reading} {cs : List Char} {c : Char}

theorem parseFrom_plain_cons (ho : r.opened = none) (hg : r.groups = []) (hc : IsPlain c)
    (cs : List Char) : parseFrom r (c :: cs) = parseFrom (r.push c (.literal c)) cs := by
  simp only [IsPlain, List.mem_cons, List.not_mem_nil, or_false, not_or] at hc
  obtain ⟨h₁, h₂, h₃, h₄, h₅, h₆⟩ := hc
  by_cases hcomma : c = ','
  · subst hcomma
    rw [parseFrom.eq_def]
    simp [ho, Reading.comma, hg]
  · rw [parseFrom.eq_def]
    simp [ho, h₁, h₂, h₃, h₄, h₅, h₆, hcomma]

theorem parseFrom_star (ho : r.opened = none) (hc : ∀ ds, cs ≠ '*' :: ds) :
    parseFrom r ('*' :: cs) = parseFrom (r.push '*' .anything) cs := by
  rw [parseFrom.eq_def]
  simp only [ho, if_true, Char.reduceEq, if_false]

/-- Plain characters that are read. -/
def Reading.pushAll (r : Reading) (cs : List Char) : Reading :=
  cs.foldl (fun r c => r.push c (.literal c)) r

theorem Reading.pushAll_eq (r : Reading) (cs : List Char) :
    (r.pushAll cs).tokens = (literals cs).reverse ++ r.tokens ∧
      (r.pushAll cs).groups = r.groups ∧ (r.pushAll cs).opened = r.opened := by
  induction cs generalizing r with
  | nil => exact ⟨rfl, rfl, rfl⟩
  | cons c cs ih =>
    obtain ⟨ht, hg, ho⟩ := ih (r.push c (.literal c))
    refine ⟨?_, hg, ho⟩
    change ((r.push c (.literal c)).pushAll cs).tokens = _
    rw [ht]
    simp [literals, Reading.push]

theorem parseFrom_plain (ho : r.opened = none) (hg : r.groups = []) {front : List Char}
    (hp : ∀ c ∈ front, IsPlain c) (cs : List Char) :
    parseFrom r (front ++ cs) = parseFrom (r.pushAll front) cs := by
  induction front generalizing r with
  | nil => rfl
  | cons c front ih =>
    rw [List.cons_append, parseFrom_plain_cons ho hg (hp c List.mem_cons_self)]
    exact ih ho hg fun d hd => hp d (List.mem_cons_of_mem c hd)

/-- The tokens of a pattern with one star. -/
theorem parse_star {front back : List Char} (hf : ∀ c ∈ front, IsPlain c)
    (hb : ∀ c ∈ back, IsPlain c) :
    parse (String.ofList front ++ "*" ++ String.ofList back) =
      .ok (literals front ++ .anything :: literals back) := by
  have hl : (String.ofList front ++ "*" ++ String.ofList back).toList = front ++ '*' :: back := by
    simp
  obtain ⟨ht, hg, ho⟩ := Reading.pushAll_eq .start front
  have hstar : parseFrom (Reading.start.pushAll front) ('*' :: back) =
      parseFrom ((Reading.start.pushAll front).push '*' .anything) back := by
    refine parseFrom_star ho ?_
    rintro ds rfl
    exact hb '*' List.mem_cons_self (by decide)
  rw [parse, hl, parseFrom_plain rfl rfl hf, hstar]
  obtain ⟨ht', hg', ho'⟩ :=
    Reading.pushAll_eq ((Reading.start.pushAll front).push '*' .anything) back
  have hend := parseFrom_plain (r := (Reading.start.pushAll front).push '*' .anything) ho hg hb []
  rw [List.append_nil] at hend
  rw [hend, parseFrom, Reading.finish, ho', hg', ht']
  simp only [Reading.push, ho, hg, ht]
  simp [Reading.start, literals]

/-- Whether the same set and as many groups are open. -/
structure Reading.Like (r r' : Reading) : Prop where
  opened : r'.opened = r.opened
  groups : r'.groups.length = r.groups.length

namespace Reading

theorem Like.symm (h : r.Like r') : r'.Like r := ⟨h.opened.symm, h.groups.symm⟩

theorem Like.trans {r'' : Reading} (h : r.Like r') (h' : r'.Like r'') : r.Like r'' :=
  ⟨h'.opened.trans h.opened, h'.groups.trans h.groups⟩

theorem like_push (r : Reading) (c : Char) (t : Token) : r.Like (r.push c t) := ⟨rfl, rfl⟩

theorem Like.push (h : r.Like r') (c : Char) (t t' : Token) : (r.push c t).Like (r'.push c t') :=
  ⟨h.opened, h.groups⟩

theorem Like.openSet (h : r.Like r') (s : Option OpenSet) :
    { r with opened := s : Reading }.Like { r' with opened := s } := ⟨rfl, h.groups⟩

theorem Like.openGroup (h : r.Like r') : r.openGroup.Like r'.openGroup :=
  ⟨h.opened, congrArg (· + 1) h.groups⟩

theorem like_comma (r : Reading) : r.Like r.comma := by
  unfold comma
  split
  · exact r.like_push _ _
  · next g gs hg => exact ⟨rfl, by simp [hg]⟩

theorem Like.closeGroup {closed : Reading} (h : r.Like r') (hc : r.closeGroup = .ok closed) :
    ∃ closed', r'.closeGroup = .ok closed' ∧ closed.Like closed' := by
  unfold Reading.closeGroup at hc ⊢
  have hgroups := h.groups
  cases hg : r.groups with
  | nil => rw [hg] at hc; cases hc
  | cons g gs =>
    cases hg' : r'.groups with
    | nil => rw [hg, hg'] at hgroups; cases hgroups
    | cons g' gs' =>
      rw [hg] at hc
      cases hc
      rw [hg, hg'] at hgroups
      exact ⟨_, rfl, h.opened, Nat.succ.inj hgroups⟩

theorem Like.finish {ts : List Token} (h : r.Like r') (hf : r.finish = .ok ts) :
    ∃ ts', r'.finish = .ok ts' := by
  unfold Reading.finish at hf ⊢
  have hempty : r'.groups.isEmpty = r.groups.isEmpty := by
    rw [Bool.eq_iff_iff, List.isEmpty_iff_length_eq_zero, List.isEmpty_iff_length_eq_zero, h.groups]
  rw [h.opened, hempty]
  split at hf
  · cases hf
  · next ho =>
    split at hf
    · cases hf
    · next hg => exact ⟨_, by rw [if_neg ho, if_neg hg]⟩

theorem like_betweenSlashes (r : Reading) (t : Token) : r.Like (r.betweenSlashes t) := by
  unfold betweenSlashes
  split <;> exact ⟨rfl, rfl⟩

/-- Two stars take a slash after them or leave it, but open and end nothing. -/
theorem doubleStar_cases (r : Reading) (next : Option Char) :
    r.Like (r.doubleStar next).1 ∧ ((r.doubleStar next).2 = true → next = some '/') := by
  unfold doubleStar
  split
  · split
    · exact ⟨⟨rfl, rfl⟩, nofun⟩
    · exact ⟨⟨rfl, rfl⟩, fun _ => rfl⟩
    · exact ⟨⟨rfl, rfl⟩, nofun⟩
  · split
    · exact ⟨⟨rfl, rfl⟩, nofun⟩
    · split
      · exact ⟨like_betweenSlashes r _, nofun⟩
      · exact ⟨like_betweenSlashes r _, fun _ => rfl⟩
      · split
        · exact ⟨like_betweenSlashes r _, nofun⟩
        · exact ⟨⟨rfl, rfl⟩, nofun⟩

end Reading

/-- What is read after two stars: the slash after them says nothing of its own. -/
def afterStars : List Char → List Char
  | '/' :: cs => cs
  | cs => cs

theorem parseFrom_doubleStar (ho : r.opened = none) (cs : List Char) :
    ∃ r', r.Like r' ∧ parseFrom r ('*' :: '*' :: cs) = parseFrom r' (afterStars cs) := by
  obtain ⟨hlike, hslash⟩ := r.doubleStar_cases cs.head?
  rw [parseFrom.eq_def]
  simp only [ho, if_true, Char.reduceEq, if_false]
  rcases hd : r.doubleStar cs.head? with ⟨r₁, taken⟩
  simp only [hd] at hlike hslash
  have hopened : r₁.opened = none := hlike.opened.trans ho
  cases cs with
  | nil => exact ⟨r₁, hlike, by cases taken <;> rfl⟩
  | cons c cs =>
    by_cases hc : c = '/'
    · subst hc
      cases taken with
      | true => exact ⟨{ r₁ with previous := some '/' }, ⟨hlike.opened, hlike.groups⟩, rfl⟩
      | false =>
        -- The slash that is left stands for itself.
        refine ⟨r₁.push '/' (.literal '/'), hlike.trans (r₁.like_push _ _), ?_⟩
        change parseFrom r₁ ('/' :: cs) = _
        rw [parseFrom.eq_def]
        simp [hopened, afterStars]
    · have htaken : taken = false := by
        rw [← Bool.not_eq_true]
        exact fun ht => hc (Option.some.inj (hslash ht))
      subst htaken
      refine ⟨r₁, hlike, ?_⟩
      rw [show afterStars (c :: cs) = c :: cs by simp [afterStars, hc]]

-- The cases of an induction on the length of what is left; `ih` is for what comes after.
section
variable {ts : List Token} {c : Char}
  (ih : ∀ {r₁ r₁' : Reading} {ds : List Char}, ds.length < (c :: cs).length → r₁.Like r₁' →
    parseFrom r₁ ds = .ok ts → ∃ ts', parseFrom r₁' ds = .ok ts')
include ih

/-- A character inside of a set. -/
theorem like_inSet {s : OpenSet} (h : r.Like r') (ho : r.opened = some s)
    (hp : parseFrom r (c :: cs) = .ok ts) : ∃ ts', parseFrom r' (c :: cs) = .ok ts' := by
  have ho' : r'.opened = some s := h.opened.trans ho
  rw [parseFrom.eq_def] at hp ⊢
  simp only [ho, ho'] at hp ⊢
  split at hp
  · next hend =>
    rw [if_pos hend]
    exact ih (Nat.lt_succ_self _) ((h.openSet none).push c s.token s.token) hp
  · next hend =>
    rw [if_neg hend]
    cases hadd : s.add c with
    | error e => rw [hadd] at hp; cases hp
    | ok s' => rw [hadd] at hp; exact ih (Nat.lt_succ_self _) (h.openSet (some s')) hp

/-- One star, or two. -/
theorem like_star (h : r.Like r') (ho : r.opened = none) (hc : c = '*')
    (hp : parseFrom r (c :: cs) = .ok ts) : ∃ ts', parseFrom r' (c :: cs) = .ok ts' := by
  subst hc
  have ho' : r'.opened = none := h.opened.trans ho
  by_cases hstars : ∃ ds, cs = '*' :: ds
  · obtain ⟨ds, rfl⟩ := hstars
    obtain ⟨r₁, hl, he⟩ := parseFrom_doubleStar ho ds
    obtain ⟨r₁', hl', he'⟩ := parseFrom_doubleStar ho' ds
    have hshort : (afterStars ds).length < ('*' :: '*' :: ds).length := by
      unfold afterStars
      split <;> simp only [List.length_cons] <;> omega
    rw [he] at hp
    rw [he']
    exact ih hshort ((hl.symm.trans h).trans hl') hp
  · have hcs : ∀ ds, cs ≠ '*' :: ds := fun ds he => hstars ⟨ds, he⟩
    rw [parseFrom_star ho hcs] at hp
    rw [parseFrom_star ho' hcs]
    exact ih (Nat.lt_succ_self _) (h.push _ _ _) hp

/-- Any other character outside of sets. -/
theorem like_other (h : r.Like r') (ho : r.opened = none) (hc : c ≠ '*')
    (hp : parseFrom r (c :: cs) = .ok ts) : ∃ ts', parseFrom r' (c :: cs) = .ok ts' := by
  have ho' : r'.opened = none := h.opened.trans ho
  have hstep : ∀ {r₁ r₁' : Reading}, parseFrom r₁ cs = .ok ts → r₁.Like r₁' →
      ∃ ts', parseFrom r₁' cs = .ok ts' := fun hp' h' => ih (Nat.lt_succ_self _) h' hp'
  rw [parseFrom.eq_def] at hp ⊢
  simp only [ho, ho', if_neg hc] at hp ⊢
  split_ifs at hp ⊢ with hany hset hgroup hend hcomma hescape
  · exact hstep hp (h.push _ _ _)
  · cases cs with
    | nil => cases hp
    | cons d ds =>
      simp only at hp ⊢
      split_ifs at hp ⊢ with hnot
      · exact ih (by simp only [List.length_cons]; omega) (h.openSet _) hp
      · exact hstep hp (h.openSet _)
  · exact hstep hp h.openGroup
  · cases hclose : r.closeGroup with
    | error e => rw [hclose] at hp; cases hp
    | ok closed =>
      obtain ⟨closed', hclose', hl⟩ := h.closeGroup hclose
      rw [hclose] at hp
      rw [hclose']
      exact hstep hp hl
  · exact hstep hp ((r.like_comma.symm.trans h).trans r'.like_comma)
  · cases cs with
    | nil => cases hp
    | cons d ds => exact ih (by simp only [List.length_cons]; omega) (h.push _ _ _) hp
  · exact hstep hp (h.push _ _ _)

end

/-- Whether a glob can be read on depends on what is open alone. -/
theorem parseFrom_like {ts : List Token} (h : r.Like r') (hp : parseFrom r cs = .ok ts) :
    ∃ ts', parseFrom r' cs = .ok ts' := by
  induction hn : cs.length using Nat.strongRecOn generalizing r r' cs with
  | ind n ih =>
    subst hn
    cases cs with
    | nil => exact h.finish hp
    | cons c cs =>
      have hshorter : ∀ {r₁ r₁' : Reading} {ds : List Char}, ds.length < (c :: cs).length →
          r₁.Like r₁' → parseFrom r₁ ds = .ok ts → ∃ ts', parseFrom r₁' ds = .ok ts' :=
        fun hlt h' hp' => ih _ hlt h' hp' rfl
      cases ho : r.opened with
      | some s => exact like_inSet hshorter h ho hp
      | none =>
        by_cases hstar : c = '*'
        · exact like_star hshorter h ho hstar hp
        · exact like_other hshorter h ho hstar hp

/-- Plain characters in front of a glob make a glob. -/
theorem parse_plain_append {front s : String} {ts : List Token}
    (hf : ∀ c ∈ front.toList, IsPlain c) (hp : parse s = .ok ts) :
    ∃ ts', parse (front ++ s) = .ok ts' := by
  rw [parse, String.toList_append, parseFrom_plain rfl rfl hf]
  obtain ⟨-, hg, ho⟩ := Reading.pushAll_eq .start front.toList
  exact parseFrom_like ⟨ho, congrArg List.length hg⟩ hp

end

end TemplateInventory.Glob
