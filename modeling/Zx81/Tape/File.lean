import Zx81.Tape.Deck

namespace Zx81.Tape

def fileName (path : List Char) : List Char := (path.reverse.takeWhile (· != '/')).reverse

/-- A file name without its extension, and the extension. A point at the start of a name begins no
extension. -/
def splitExtension (name : List Char) : List Char × List Char :=
  match name.reverse.dropWhile (· != '.') with
  | '.' :: c :: rest => ((c :: rest).reverse, (name.reverse.takeWhile (· != '.')).reverse)
  | _ => (name, [])

/-- A tape with the program of a file: a ZX80 program if the extension is o, in either case, and
otherwise a ZX81 program. -/
def ofFile (path : String) (image : List UInt8) : Tape :=
  match splitExtension (fileName path.toList) with
  | (stem, extension) =>
    if extension.map Char.toLower = ['o'] then pushZx80Program {} image
    else pushProgram {} (.ofList stem) image

end Zx81.Tape
