import HouseStyle.Text.Basic
import HouseStyle.Text.CaseTable

/-! Upper and lower forms of texts, and equality that ignores case. -/

namespace HouseStyle.Sym

/-- The upper form, which may be several characters (`ß` becomes `SS`). -/
def upper : Sym → Text
  | .char c =>
    if c.toNat < 0x80 then [.char c.toUpper]
    else match Table.upperWide.lookup c.toNat with
      | some codes => codes.map fun n => .char (Char.ofNat n)
      | none => [.char (Char.ofNat (Table.shifted Table.upper c.toNat))]
  | s => [s]

/-- The form under which two symbols are equal when case is ignored. -/
def folded : Sym → Sym
  | .char c =>
    if c.toNat < 0x80 then .char c.toLower
    else .char (Char.ofNat (Table.shifted Table.folded c.toNat))
  | s => s

def isCased : Sym → Bool
  | .char c => if c.toNat < 0x80 then c.isAlpha else Table.covers Table.cased c.toNat
  | _ => false

/-- Marks that are skipped when looking for the end of a word, such as the apostrophe. -/
def isCaseless : Sym → Bool
  | .char c =>
    if c.toNat < 0x80 then (c = '\'' || c = '.' || c = ':' || c = '^' || c = '\x60')
    else Table.covers Table.caseless c.toNat
  | _ => false

/-- The lower form where it does not depend on the symbols around. -/
def lower : Sym → Text
  | .char c =>
    if c.toNat < 0x80 then [.char c.toLower]
    else if c = 'İ' then [.char 'i', .char '\u0307']
    else [.char (Char.ofNat (Table.shifted Table.lower c.toNat))]
  | s => [s]

end HouseStyle.Sym

namespace HouseStyle.Text

def upper (t : Text) : Text := t.flatMap Sym.upper

/-- Whether the nearest symbol that is no caseless mark has case. -/
def touchesCased (t : Text) : Bool := ((t.dropWhile Sym.isCaseless).head?.map Sym.isCased).getD false

/-- A capital sigma takes its final form at the end of a word: after a letter and before none.
`before` holds the symbols already passed, nearest first. -/
def lowerFrom (before : Text) : Text → Text
  | [] => []
  | s :: rest =>
    (if s.is 'Σ' then [.char (if touchesCased before && !touchesCased rest then 'ς' else 'σ')]
      else s.lower) ++ lowerFrom (s :: before) rest

def lower (t : Text) : Text := lowerFrom [] t

/-- Whether `part` begins the text when case is ignored. -/
def foldPrefixOf (part t : Text) : Bool :=
  (part.map Sym.folded).isPrefixOf (t.map Sym.folded)

end HouseStyle.Text
