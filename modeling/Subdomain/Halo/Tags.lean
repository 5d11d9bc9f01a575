import Subdomain.Message.Program

/-!
# Tags

The tag under which each collective starts. A collective takes up to four tags in a row.
-/

namespace Subdomain

namespace Tags

/-- Overlaps of halo rings. -/
def overlaps : Tag := 0x4800

/-- Owners of cells. -/
def owners : Tag := 0x4810

/-- Offsets of derived entities. -/
def offsets : Tag := 0x4820

/-- Summaries of colorings. -/
def summaries : Tag := 0x4830

/-- Id sets of all ranks. -/
def idSets : Tag := 0x4840

/-- One number from each rank. -/
def sizes : Tag := 0x4850

/-- Cells on their way to their ranks. -/
def redistribution : Tag := 0x4860

end Tags

end Subdomain
