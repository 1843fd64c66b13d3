import TileCompute.Kernel.Error

/-!
# TileCompute.Target.Basic

The two generations of GPU that kernels are scheduled for, and how a name selects one.
-/

namespace TileCompute

/-- A GPU generation. -/
inductive Target where
  /-- Separate multiply and add. -/
  | midgard
  /-- Fused multiply-add. -/
  | bifrost
deriving DecidableEq, Repr

namespace Target

/-- The generation when nothing says otherwise. -/
def default : Target := midgard

def name : Target → String
  | midgard => "Midgard"
  | bifrost => "Bifrost"

/-- The name in small letters, as kernel names and schedules carry it. -/
def lowerName : Target → String
  | midgard => "midgard"
  | bifrost => "bifrost"

/-- What marks the model number in a GPU name. -/
def modelMarker : List Char := "MALI-".toList

/-- The characters behind the first model marker. -/
def afterMarker : List Char → Option (List Char)
  | [] => none
  | c :: rest =>
    if modelMarker.isPrefixOf (c :: rest) then some ((c :: rest).drop modelMarker.length)
    else afterMarker rest

/-- The generation of a GPU from its name: the letter behind the marker tells it. Letters of
either case are alike. -/
def ofGpuName (name : String) : Option Target :=
  match afterMarker (name.toList.map Char.toUpper) with
  | some ('T' :: _) => some midgard
  | some ('G' :: _) => some bifrost
  | _ => none

/-- White space of Unicode, which surrounds a name without being part of it. -/
def isBlank (c : Char) : Bool :=
  let n := c.toNat
  (0x9 ≤ n ∧ n ≤ 0xd) ∨ n = 0x20 ∨ n = 0x85 ∨ n = 0xa0 ∨ n = 0x1680 ∨
    (0x2000 ≤ n ∧ n ≤ 0x200a) ∨ n = 0x2028 ∨ n = 0x2029 ∨ n = 0x202f ∨ n = 0x205f ∨ n = 0x3000

/-- A name without surrounding blanks, in small letters. Letters outside ASCII stay as they are: none
of them has a small form that occurs in the name of a target or in the model marker. -/
def normalName (s : String) : String :=
  let trimmed := ((s.toList.dropWhile isBlank).reverse.dropWhile isBlank).reverse
  String.ofList (trimmed.map Char.toLower)

def parse (s : String) : Except KernelError Target :=
  let plain := normalName s
  if plain = midgard.lowerName then .ok midgard
  else if plain = bifrost.lowerName then .ok bifrost
  else
    match ofGpuName plain with
    | some t => .ok t
    | none => .error (.unknownTarget s)

end Target

end TileCompute
