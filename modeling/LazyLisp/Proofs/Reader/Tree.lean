import LazyLisp.Reader.Forms

/-!
# Tree — the grammar of source text

A row of tokens is source text exactly if it can be derived by the grammar of forms.  A form is a
number, a key, a symbol, or a string whose escapes have a meaning; or any number of forms in
parentheses or in brackets; or any number of entries in braces, each of them a key, or a string in
its place, and a form; or a quote mark and a form.  Derivations are trees.  This file defines:

* `MapKey` and `Tree`, the derivations, each with the tokens that it derives and the value that it
  stands for;
* `Growth`, the state of building trees one token at a time, with `Growth.step` and `grow`.

Main result: `grow_eq_some_iff`, that the trees built from a row of tokens are those that derive it.
So no row has two derivations, `eq_of_allTokens_eq`.
-/

namespace LazyLisp
namespace Reader

/-! ## Derivations -/

/-- The key of an entry. -/
inductive MapKey where
  | key (name : List Char) (position : Position)
  | text (body decoded : List Char) (valid : Quoted.decode body = .ok decoded)
      (position : Position)

/-- The derivations of forms. -/
inductive Tree where
  | number (digits : List Char) (n : Decimal)
      (valid : Decimal.ofString? (String.ofList digits) = some n) (position : Position)
  | key (name : List Char) (position : Position)
  | symbol (name : List Char) (position : Position)
  | text (body decoded : List Char) (valid : Quoted.decode body = .ok decoded)
      (position : Position)
  | list (opened : Position) (items : List Tree) (closed : Position)
  | vector (opened : Position) (items : List Tree) (closed : Position)
  | map (opened : Position) (pairs : List (MapKey × Tree)) (closed : Position)
  | quoted (mark : Position) (tree : Tree)

namespace MapKey

def token : MapKey → Token
  | .key name position => ⟨.key name, position⟩
  | .text body _ _ position => ⟨.text body, position⟩

/-- The name of the entry. -/
def name : MapKey → Key
  | .key name _ => ⟨String.ofList name⟩
  | .text _ decoded _ _ => ⟨String.ofList decoded⟩

/-- The key as a form of its own. -/
def tree : MapKey → Tree
  | .key name position => .key name position
  | .text body decoded valid position => .text body decoded valid position

end MapKey

namespace Tree

/-! ### Tokens -/

mutual

/-- The tokens that are derived. -/
def tokens : Tree → List Token
  | .number digits _ _ position => [⟨.number digits, position⟩]
  | .key name position => [⟨.key name, position⟩]
  | .symbol name position => [⟨.symbol name, position⟩]
  | .text body _ _ position => [⟨.text body, position⟩]
  | .list opened items closed =>
      ⟨.opening .paren, opened⟩ :: (allTokens items ++ [⟨.closing .paren, closed⟩])
  | .vector opened items closed =>
      ⟨.opening .bracket, opened⟩ :: (allTokens items ++ [⟨.closing .bracket, closed⟩])
  | .map opened pairs closed =>
      ⟨.opening .brace, opened⟩ :: (pairTokens pairs ++ [⟨.closing .brace, closed⟩])
  | .quoted mark tree => ⟨.quoteMark, mark⟩ :: tree.tokens

def allTokens : List Tree → List Token
  | [] => []
  | tree :: rest => tree.tokens ++ allTokens rest

def pairTokens : List (MapKey × Tree) → List Token
  | [] => []
  | (k, tree) :: rest => k.token :: (tree.tokens ++ pairTokens rest)

end

/-! ### Values -/

mutual

/-- The value that a derivation stands for.  Where a key occurs twice in a map, the last occurrence
counts. -/
def value : Tree → Value
  | .number _ n _ _ => .number n
  | .key name _ => .key ⟨String.ofList name⟩
  | .symbol name position => .symbol ⟨String.ofList name, some position⟩
  | .text _ decoded _ _ => .text (String.ofList decoded)
  | .list _ items _ => .list (allValues items)
  | .vector _ items _ => .vector (allValues items)
  | .map _ pairs _ => .map (Entries.ofList (pairValues pairs))
  | .quoted _ tree => tree.value.quoted

def allValues : List Tree → List Value
  | [] => []
  | tree :: rest => tree.value :: allValues rest

def pairValues : List (MapKey × Tree) → List (Key × Value)
  | [] => []
  | (k, tree) :: rest => (k.name, tree.value) :: pairValues rest

end

theorem allValues_eq_map (trees : List Tree) : allValues trees = trees.map value := by
  induction trees with
  | nil => rfl
  | cons tree rest ih => simp [allValues, ih]

theorem pairValues_eq_map (pairs : List (MapKey × Tree)) :
    pairValues pairs = pairs.map fun pair => (pair.1.name, pair.2.value) := by
  induction pairs with
  | nil => rfl
  | cons pair rest ih => simp [pairValues, ih]

@[simp] theorem allTokens_append (trees others : List Tree) :
    allTokens (trees ++ others) = allTokens trees ++ allTokens others := by
  induction trees with
  | nil => rfl
  | cons tree rest ih => simp [allTokens, ih]

@[simp] theorem tokens_mapKey (key : MapKey) : key.tree.tokens = [key.token] := by
  cases key <;> rfl

/-! ### Entries of a map, one form after the other -/

/-- The forms between the braces of a map. -/
def unpaired : List (MapKey × Tree) → List Tree
  | [] => []
  | (k, tree) :: rest => k.tree :: tree :: unpaired rest

/-- Pair up the forms between the braces of a map. -/
def pairs? : List Tree → Option (List (MapKey × Tree))
  | [] => some []
  | .key name position :: tree :: rest => (pairs? rest).map ((.key name position, tree) :: ·)
  | .text body decoded valid position :: tree :: rest =>
      (pairs? rest).map ((.text body decoded valid position, tree) :: ·)
  | _ => none

theorem pairTokens_eq (pairs : List (MapKey × Tree)) :
    pairTokens pairs = allTokens (unpaired pairs) := by
  induction pairs with
  | nil => rfl
  | cons pair rest ih =>
      rcases pair with ⟨k, tree⟩
      simp [pairTokens, unpaired, allTokens, ih]

theorem length_unpaired (pairs : List (MapKey × Tree)) :
    (unpaired pairs).length = 2 * pairs.length := by
  induction pairs with
  | nil => rfl
  | cons pair rest ih =>
      simp only [unpaired, List.length_cons, ih]
      omega

theorem pairs?_unpaired (pairs : List (MapKey × Tree)) : pairs? (unpaired pairs) = some pairs := by
  induction pairs with
  | nil => rfl
  | cons pair rest ih =>
      rcases pair with ⟨k, tree⟩
      cases k with
      | key name position => simp [unpaired, MapKey.tree, pairs?, ih]
      | text body decoded valid position => simp [unpaired, MapKey.tree, pairs?, ih]

theorem unpaired_of_pairs? {items : List Tree} {pairs : List (MapKey × Tree)}
    (h : pairs? items = some pairs) : unpaired pairs = items := by
  fun_induction pairs? items generalizing pairs with
  | case1 =>
      cases h
      rfl
  | case2 name position tree rest ih =>
      rcases Option.map_eq_some_iff.mp h with ⟨others, hothers, rfl⟩
      simp [unpaired, MapKey.tree, ih hothers]
  | case3 body decoded valid position tree rest ih =>
      rcases Option.map_eq_some_iff.mp h with ⟨others, hothers, rfl⟩
      simp [unpaired, MapKey.tree, ih hothers]
  | case4 => cases h

end Tree

/-! ## Building trees -/

/-- What is open around the next tree. -/
inductive Stem where
  /-- A bracket, and the trees inside it so far, the latest first. -/
  | delimiter (delimiter : Delimiter) (items : List Tree)
  | quoteMark

/-- The state of building trees between two tokens. -/
structure Growth where
  /-- What is open and where it was opened, innermost first. -/
  opened : List (Stem × Position)
  /-- The complete trees that stand outside all brackets, the latest first. -/
  trees : List Tree

/-- The tree that a number token makes, if it denotes a number. -/
def numberTree? (digits : List Char) (position : Position) : Option Tree :=
  match h : Decimal.ofString? (String.ofList digits) with
  | some n => some (.number digits n h position)
  | none => none

/-- The tree that a string token makes, if all its escapes have a meaning. -/
def textTree? (body : List Char) (position : Position) : Option Tree :=
  match h : Quoted.decode body with
  | .ok decoded => some (.text body decoded h position)
  | .error _ => none

/-- The tree that a closed bracket makes of the trees inside it. -/
def closeTree? (delimiter : Delimiter) (items : List Tree) (opened closed : Position) :
    Option Tree :=
  match delimiter with
  | .paren => some (.list opened items closed)
  | .bracket => some (.vector opened items closed)
  | .brace => (Tree.pairs? items).map fun pairs => .map opened pairs closed

namespace Growth

def start : Growth := ⟨[], []⟩

/-- Hand a complete tree to what is open around it. -/
def deliver (tree : Tree) (trees : List Tree) : List (Stem × Position) → Growth
  | [] => ⟨[], tree :: trees⟩
  | (.delimiter delimiter items, position) :: rest =>
      ⟨(.delimiter delimiter (tree :: items), position) :: rest, trees⟩
  | (.quoteMark, position) :: rest => deliver (.quoted position tree) trees rest

def add (growth : Growth) (tree : Tree) : Growth :=
  deliver tree growth.trees growth.opened

def push (growth : Growth) (stem : Stem) (position : Position) : Growth :=
  { growth with opened := (stem, position) :: growth.opened }

/-- The effect of one token. -/
def step (growth : Growth) (token : Token) : Option Growth :=
  match token.lexeme with
  | .opening delimiter => some (growth.push (.delimiter delimiter []) token.position)
  | .quoteMark => some (growth.push .quoteMark token.position)
  | .number digits => (numberTree? digits token.position).map growth.add
  | .text body => (textTree? body token.position).map growth.add
  | .openText _ => none
  | .key name => some (growth.add (.key name token.position))
  | .symbol name => some (growth.add (.symbol name token.position))
  | .closing delimiter =>
      match growth.opened with
      | (.delimiter opened items, openedAt) :: rest =>
          if opened = delimiter then
            (closeTree? delimiter items.reverse openedAt token.position).map
              (add { growth with opened := rest })
          else none
      | _ => none

/-- All trees, unless something is still open. -/
def finish (growth : Growth) : Option (List Tree) :=
  match growth.opened with
  | [] => some growth.trees.reverse
  | _ => none

end Growth

/-- The trees that a row of tokens makes. -/
def grow (row : List Token) : Option (List Tree) :=
  row.foldlM Growth.step Growth.start >>= Growth.finish

/-! ## What is built derives what was read -/

theorem tokens_of_numberTree? {digits : List Char} {position : Position} {tree : Tree}
    (h : numberTree? digits position = some tree) : tree.tokens = [⟨.number digits, position⟩] := by
  unfold numberTree? at h
  split at h <;> cases h
  rfl

theorem tokens_of_textTree? {body : List Char} {position : Position} {tree : Tree}
    (h : textTree? body position = some tree) : tree.tokens = [⟨.text body, position⟩] := by
  unfold textTree? at h
  split at h <;> cases h
  rfl

theorem tokens_of_closeTree? {delimiter : Delimiter} {items : List Tree} {opened closed : Position}
    {tree : Tree} (h : closeTree? delimiter items opened closed = some tree) :
    tree.tokens =
      ⟨.opening delimiter, opened⟩ :: (Tree.allTokens items ++ [⟨.closing delimiter, closed⟩]) := by
  cases delimiter with
  | paren =>
      cases h
      simp [Tree.tokens]
  | bracket =>
      cases h
      simp [Tree.tokens]
  | brace =>
      rcases Option.map_eq_some_iff.mp h with ⟨pairs, hpairs, rfl⟩
      have hitems := Tree.unpaired_of_pairs? hpairs
      simp [Tree.tokens, Tree.pairTokens_eq, hitems]

/-- The tokens of what is open, up to the next form. -/
def Stem.tokens : Stem × Position → List Token
  | (.delimiter kind items, position) =>
      ⟨.opening kind, position⟩ :: Tree.allTokens items.reverse
  | (.quoteMark, position) => [⟨.quoteMark, position⟩]

namespace Growth

/-- The tokens that have been read. -/
def tokens (growth : Growth) : List Token :=
  Tree.allTokens growth.trees.reverse ++ growth.opened.reverse.flatMap Stem.tokens

theorem tokens_deliver (tree : Tree) (trees : List Tree) (opened : List (Stem × Position)) :
    (deliver tree trees opened).tokens = tokens ⟨opened, trees⟩ ++ tree.tokens := by
  induction opened generalizing tree with
  | nil => simp [deliver, tokens, Tree.allTokens]
  | cons entry rest ih =>
      rcases entry with ⟨_ | _, position⟩
      · simp [deliver, tokens, Stem.tokens, Tree.allTokens]
      · rw [deliver, ih]
        simp [tokens, Stem.tokens, Tree.tokens]

theorem tokens_add (growth : Growth) (tree : Tree) :
    (growth.add tree).tokens = growth.tokens ++ tree.tokens :=
  tokens_deliver tree growth.trees growth.opened

/-- Every token that is read is accounted for. -/
theorem tokens_step {growth growth' : Growth} {token : Token}
    (h : growth.step token = some growth') : growth'.tokens = growth.tokens ++ [token] := by
  rcases token with ⟨lexeme, position⟩
  cases lexeme with
  | opening delimiter =>
      cases h
      simp [push, tokens, Stem.tokens, Tree.allTokens]
  | quoteMark =>
      cases h
      simp [push, tokens, Stem.tokens]
  | number digits =>
      rcases Option.map_eq_some_iff.mp h with ⟨tree, htree, rfl⟩
      rw [tokens_add, tokens_of_numberTree? htree]
  | text body =>
      rcases Option.map_eq_some_iff.mp h with ⟨tree, htree, rfl⟩
      rw [tokens_add, tokens_of_textTree? htree]
  | openText body => cases h
  | key name =>
      cases h
      simp [tokens_add, Tree.tokens]
  | symbol name =>
      cases h
      simp [tokens_add, Tree.tokens]
  | closing delimiter =>
      rcases growth with ⟨opened, trees⟩
      simp only [step] at h
      split at h
      · next _ items openedAt rest =>
          split at h
          · next heq =>
              cases heq
              rcases Option.map_eq_some_iff.mp h with ⟨tree, htree, rfl⟩
              -- The tokens of the new tree are those of the stem and the closing bracket.
              rw [tokens_add, tokens_of_closeTree? htree]
              simp [tokens, Stem.tokens]
          · cases h
      · cases h

theorem tokens_foldlM {row : List Token} {growth growth' : Growth}
    (h : row.foldlM step growth = some growth') : growth'.tokens = growth.tokens ++ row := by
  induction row generalizing growth with
  | nil =>
      cases h
      simp
  | cons token rest ih =>
      rw [List.foldlM_cons] at h
      rcases Option.bind_eq_some_iff.mp h with ⟨next, hstep, hrest⟩
      calc
        growth'.tokens = next.tokens ++ rest := ih hrest
        _ = growth.tokens ++ [token] ++ rest := by rw [tokens_step hstep]
        _ = growth.tokens ++ token :: rest := by simp

end Growth

theorem allTokens_of_grow {row : List Token} {trees : List Tree} (h : grow row = some trees) :
    Tree.allTokens trees = row := by
  rcases Option.bind_eq_some_iff.mp h with ⟨growth, hfold, hfinish⟩
  have htokens := Growth.tokens_foldlM hfold
  unfold Growth.finish at hfinish
  split at hfinish
  · next hopened =>
      cases hfinish
      simpa [Growth.tokens, hopened, Growth.start, Tree.allTokens] using htokens
  · cases hfinish

/-! ## What can be derived is built -/

theorem numberTree?_eq {digits : List Char} {n : Decimal}
    (valid : Decimal.ofString? (String.ofList digits) = some n) (position : Position) :
    numberTree? digits position = some (.number digits n valid position) := by
  unfold numberTree?
  split
  · next m hm =>
      have heq : m = n := Option.some.inj (hm.symm.trans valid)
      subst heq
      rfl
  · next hnone =>
      rw [hnone] at valid
      cases valid

theorem textTree?_eq {body decoded : List Char} (valid : Quoted.decode body = .ok decoded)
    (position : Position) :
    textTree? body position = some (.text body decoded valid position) := by
  unfold textTree?
  split
  · next other hother =>
      have heq : other = decoded := Except.ok.inj (hother.symm.trans valid)
      subst heq
      rfl
  · next escape herror =>
      rw [herror] at valid
      cases valid

namespace Growth

theorem step_mapKey (growth : Growth) (key : MapKey) :
    growth.step key.token = some (growth.add key.tree) := by
  cases key with
  | key name position => rfl
  | text body decoded valid position =>
      simp [step, MapKey.token, MapKey.tree, textTree?_eq valid]

/-- Trees inside a bracket pile up there. -/
theorem foldl_add_delimiter (trees : List Tree) (delimiter : Delimiter) (items : List Tree)
    (position : Position) (rest : List (Stem × Position)) (outer : List Tree) :
    trees.foldl add ⟨(.delimiter delimiter items, position) :: rest, outer⟩ =
      ⟨(.delimiter delimiter (trees.reverse ++ items), position) :: rest, outer⟩ := by
  induction trees generalizing items with
  | nil => rfl
  | cons tree others ih => simp [add, deliver, ih]

theorem foldl_add_start (trees outer : List Tree) :
    trees.foldl add ⟨[], outer⟩ = ⟨[], trees.reverse ++ outer⟩ := by
  induction trees generalizing outer with
  | nil => rfl
  | cons tree others ih => simp [add, deliver, ih]

/-- A bracket with derived forms inside it makes one tree. -/
theorem foldlM_bracket (growth : Growth) (delimiter : Delimiter) {row : List Token}
    {items : List Tree} (opened closed : Position) {tree : Tree}
    (hrow : ∀ growth : Growth, row.foldlM step growth = some (items.foldl add growth))
    (hclose : closeTree? delimiter items opened closed = some tree) :
    (⟨.opening delimiter, opened⟩ :: (row ++ [⟨.closing delimiter, closed⟩])).foldlM step growth =
      some (growth.add tree) := by
  have hopen : growth.step ⟨.opening delimiter, opened⟩ =
      some (growth.push (.delimiter delimiter []) opened) := rfl
  have hitems := foldl_add_delimiter items delimiter [] opened growth.opened growth.trees
  rw [List.foldlM_cons, hopen]
  simp [List.foldlM_append, hrow, push, hitems, step, hclose]

mutual

theorem foldlM_tokens (growth : Growth) :
    (tree : Tree) → tree.tokens.foldlM step growth = some (growth.add tree)
  | .number digits n valid position => by simp [Tree.tokens, step, numberTree?_eq valid]
  | .key name position => by simp [Tree.tokens, step]
  | .symbol name position => by simp [Tree.tokens, step]
  | .text body decoded valid position => by simp [Tree.tokens, step, textTree?_eq valid]
  | .list opened items closed =>
      foldlM_bracket growth .paren opened closed (fun inner => foldlM_allTokens inner items) rfl
  | .vector opened items closed =>
      foldlM_bracket growth .bracket opened closed (fun inner => foldlM_allTokens inner items) rfl
  | .map opened pairs closed =>
      foldlM_bracket growth .brace opened closed (fun inner => foldlM_pairTokens inner pairs)
        (by simp [closeTree?, Tree.pairs?_unpaired])
  | .quoted mark tree => by
      have hinner := foldlM_tokens (growth.push .quoteMark mark) tree
      rw [Tree.tokens, List.foldlM_cons]
      exact hinner

theorem foldlM_allTokens (growth : Growth) :
    (trees : List Tree) → (Tree.allTokens trees).foldlM step growth = some (trees.foldl add growth)
  | [] => rfl
  | tree :: rest => by
      simp [Tree.allTokens, List.foldlM_append, foldlM_tokens growth tree,
        foldlM_allTokens (growth.add tree) rest]

theorem foldlM_pairTokens (growth : Growth) :
    (pairs : List (MapKey × Tree)) →
      (Tree.pairTokens pairs).foldlM step growth = some ((Tree.unpaired pairs).foldl add growth)
  | [] => rfl
  | (key, tree) :: rest => by
      simp [Tree.pairTokens, Tree.unpaired, List.foldlM_append, step_mapKey,
        foldlM_tokens (growth.add key.tree) tree,
        foldlM_pairTokens ((growth.add key.tree).add tree) rest]

end

end Growth

theorem grow_allTokens (trees : List Tree) : grow (Tree.allTokens trees) = some trees := by
  have hfold := Growth.foldlM_allTokens .start trees
  have htrees : trees.foldl Growth.add .start = ⟨[], trees.reverse⟩ := by
    simpa [Growth.start] using Growth.foldl_add_start trees []
  simp [grow, hfold, htrees, Growth.finish]

/-- The trees built from a row of tokens are those that derive it. -/
theorem grow_eq_some_iff {row : List Token} {trees : List Tree} :
    grow row = some trees ↔ Tree.allTokens trees = row := by
  constructor
  · exact allTokens_of_grow
  · rintro rfl
    exact grow_allTokens trees

/-- No row of tokens has two derivations. -/
theorem eq_of_allTokens_eq {trees others : List Tree}
    (h : Tree.allTokens trees = Tree.allTokens others) : trees = others := by
  have hsome := grow_allTokens trees
  rw [h, grow_allTokens] at hsome
  exact (Option.some.inj hsome).symm

end Reader
end LazyLisp
