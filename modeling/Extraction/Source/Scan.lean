import Extraction.Source.Balanced
import Extraction.Source.FirstClose
import Extraction.Text.Blank
/-!
The two strategies for finding the declaration block of a source text.
-/

namespace Extraction

/-- How the declaration block is found: by the first `})`, or by bracket depth. -/
inductive BlockScan
  | firstClose
  | balanced
deriving DecidableEq, Repr

namespace BlockScan

instance : Inhabited BlockScan := ⟨.firstClose⟩

def name : BlockScan → String
  | .firstClose => "first-close"
  | .balanced => "balanced"

def ofName? : String → Option BlockScan
  | "first-close" => some .firstClose
  | "balanced" => some .balanced
  | _ => none

def parse (value : String) : Except String BlockScan :=
  match normalWord value with
  | "first-close" | "first_close" | "heuristic" => .ok .firstClose
  | "balanced" | "depth" => .ok .balanced
  | other => .error other

def scan : BlockScan → Bytes → Option Declaration
  | .firstClose => FirstClose.scan
  | .balanced => Balanced.scan

end BlockScan

end Extraction
