import DotGraph.Proofs.Reading.Token
set_option autoImplicit false

/-!
What a document says, without the ways there are to say it. Words such as `graph` and
`subgraph` are known by their places alone, so they may be identifiers as well.
-/

namespace DotGraph

abbrev Pair := String × String

inductive Outline.Element where
  | node (id : String) (pairs : List Pair)
  | edge (left right : String) (pairs : List Pair)
  | subgraph (id : String) (pairs : List Pair) (elements : List Outline.Element)

structure Outline where
  strict : Bool
  directed : Bool
  id : String
  elements : List Outline.Element

namespace Outline

def pairTokens (p : Pair) : List Token := [.ident p.1, .equals, .ident p.2]

def listTokens : List Pair → List Token
  | [] => [.closeBracket]
  | [p] => pairTokens p ++ [.closeBracket]
  | p :: q :: l => pairTokens p ++ .comma :: listTokens (q :: l)

def endTokens : List Pair → List Token
  | [] => [.semicolon]
  | p :: l => .openBracket :: (listTokens (p :: l) ++ [.semicolon])

def ownTokens : List Pair → List Token
  | [] => []
  | p :: l => pairTokens p ++ .semicolon :: ownTokens l

mutual

def Element.tokens (directed : Bool) : Element → List Token
  | .node i l => .ident i :: endTokens l
  | .edge a b l => .ident a :: .operator directed :: .ident b :: endTokens l
  | .subgraph i l es =>
    .ident "subgraph" :: .ident i :: .openBrace ::
      (ownTokens l ++ Element.allTokens directed es ++ [.closeBrace])

def Element.allTokens (directed : Bool) : List Element → List Token
  | [] => []
  | e :: es => e.tokens directed ++ Element.allTokens directed es

end

def graphWord (directed : Bool) : String := if directed then "digraph" else "graph"

def tokens (o : Outline) : List Token :=
  (if o.strict then [.ident "strict"] else []) ++
    .ident (graphWord o.directed) :: .ident o.id :: .openBrace ::
      (Element.allTokens o.directed o.elements ++ [.closeBrace])

def list? : List Token → Option (List Pair × List Token)
  | .ident k :: .equals :: .ident v :: .comma :: r => (list? r).map fun p => ((k, v) :: p.1, p.2)
  | .ident k :: .equals :: .ident v :: .closeBracket :: r => some ([(k, v)], r)
  | _ => none

def ending? : List Token → Option (List Pair × List Token)
  | .semicolon :: r => some ([], r)
  | .openBracket :: r =>
    match list? r with
    | some (l, .semicolon :: r) => some (l, r)
    | _ => none
  | _ => none

def own : List Token → List Pair × List Token
  | .ident k :: .equals :: .ident v :: .semicolon :: r => ((k, v) :: (own r).1, (own r).2)
  | r => ([], r)

/-- The elements up to the closing brace, and what follows it. Their number bounds the
depth of the recursion. -/
def elements? (directed : Bool) : Nat → List Token → Option (List Element × List Token)
  | 0, _ => none
  | _ + 1, .closeBrace :: r => some ([], r)
  | n + 1, .ident k :: .ident i :: .openBrace :: r =>
    if k = "subgraph" then do
      let (es, r') ← elements? directed n (own r).2
      let (l, r') ← elements? directed n r'
      pure (.subgraph i (own r).1 es :: l, r')
    else none
  | n + 1, .ident a :: .operator d :: .ident b :: r =>
    if d = directed then do
      let (p, r) ← ending? r
      let (l, r) ← elements? directed n r
      pure (.edge a b p :: l, r)
    else none
  | n + 1, .ident i :: r => do
    let (p, r) ← ending? r
    let (l, r) ← elements? directed n r
    pure (.node i p :: l, r)
  | _ + 1, _ => none

def directed? (word : String) : Option Bool :=
  if word = "digraph" then some true else if word = "graph" then some false else none

/-- A graph from the word on that says whether it is directed. -/
def body? (strict : Bool) : List Token → Option Outline
  | .ident k :: .ident i :: .openBrace :: r => do
    let d ← directed? k
    match elements? d (r.length + 1) r with
    | some (l, []) => some ⟨strict, d, i, l⟩
    | _ => none
  | _ => none

def ofTokens? : List Token → Option Outline
  | .ident k :: r => if k = "strict" then body? true r else body? false (.ident k :: r)
  | _ => none

theorem list?_tokens (p : Pair) (l : List Pair) (r : List Token) :
    list? (listTokens (p :: l) ++ r) = some (p :: l, r) := by
  induction l generalizing p with
  | nil => rfl
  | cons q l ih => simp [listTokens, pairTokens, list?, ih]

theorem ending?_tokens (l : List Pair) (r : List Token) :
    ending? (endTokens l ++ r) = some (l, r) := by
  cases l with
  | nil => rfl
  | cons p l => simp [endTokens, ending?, list?_tokens]

/-- No element begins with a pair, so the pairs of a subgraph end where its elements
begin. -/
theorem own_elements (directed : Bool) (es : List Element) (r : List Token) :
    own (Element.allTokens directed es ++ .closeBrace :: r) =
      ([], Element.allTokens directed es ++ .closeBrace :: r) := by
  cases es with
  | nil => rfl
  | cons e es =>
    cases e with
    | node i l => cases l <;> rfl
    | edge a b l => rfl
    | subgraph i l es => rfl

theorem own_tokens (directed : Bool) (l : List Pair) (es : List Element) (r : List Token) :
    own (ownTokens l ++ (Element.allTokens directed es ++ .closeBrace :: r)) =
      (l, Element.allTokens directed es ++ .closeBrace :: r) := by
  induction l with
  | nil => exact own_elements directed es r
  | cons p l ih => simp [ownTokens, pairTokens, own, ih]

theorem elements?_node {directed : Bool} {n : Nat} {i : String} {r r' : List Token}
    {p : List Pair} (h : ending? r = some (p, r')) :
    elements? directed (n + 1) (.ident i :: r) =
      (elements? directed n r').map fun q => (.node i p :: q.1, q.2) := by
  rw [elements?, h]
  · cases hl : elements? directed n r' <;> simp [hl]
  · rintro j u rfl
    simp [ending?] at h
  · rintro d b u rfl
    simp [ending?] at h

theorem elements?_tokens (directed : Bool) (es : List Element) (r : List Token) (n : Nat)
    (hn : (Element.allTokens directed es).length < n) :
    elements? directed n (Element.allTokens directed es ++ .closeBrace :: r) = some (es, r) := by
  cases n with
  | zero => omega
  | succ n =>
    -- An element has a token at least, which pays for the step into it and for the rest.
    match es with
    | [] => rfl
    | .node i l :: es =>
      simp only [Element.allTokens, Element.tokens, List.length_append, List.length_cons] at hn
      have h := elements?_tokens directed es r n (by omega)
      simp only [Element.allTokens, Element.tokens, List.cons_append, List.append_assoc]
      rw [elements?_node (ending?_tokens l _), h]
      rfl
    | .edge a b l :: es =>
      simp only [Element.allTokens, Element.tokens, List.length_append, List.length_cons] at hn
      have h := elements?_tokens directed es r n (by omega)
      simp [Element.allTokens, Element.tokens, elements?, ending?_tokens, h]
    | .subgraph i l inner :: es =>
      simp only [Element.allTokens, Element.tokens, List.length_append, List.length_cons] at hn
      have hi := elements?_tokens directed inner
        (Element.allTokens directed es ++ .closeBrace :: r) n (by omega)
      have h := elements?_tokens directed es r n (by omega)
      simp [Element.allTokens, Element.tokens, elements?, own_tokens, hi, h]

theorem body?_tokens (o : Outline) :
    body? o.strict (.ident (graphWord o.directed) :: .ident o.id :: .openBrace ::
      (Element.allTokens o.directed o.elements ++ [.closeBrace])) = some o := by
  have hd : directed? (graphWord o.directed) = some o.directed := by cases o.directed <;> decide
  have h := elements?_tokens o.directed o.elements []
    ((Element.allTokens o.directed o.elements ++ [Token.closeBrace]).length + 1)
    (by simp only [List.length_append]; omega)
  simp only [body?, hd, h, Option.bind_eq_bind, Option.bind_some]

theorem ofTokens?_tokens (o : Outline) : ofTokens? o.tokens = some o := by
  have h := body?_tokens o
  cases hs : o.strict with
  | true => simpa [tokens, ofTokens?, hs] using h
  | false =>
    have hw : graphWord o.directed ≠ "strict" := by cases o.directed <;> decide
    simpa [tokens, ofTokens?, hs, hw] using h

end Outline

/-- The outline of a text, read off the text alone. -/
def Outline.ofString? (s : String) : Option Outline := (tokens? s.toList).bind ofTokens?

end DotGraph
