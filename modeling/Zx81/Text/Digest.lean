namespace Zx81.Text.Digest

def start : UInt64 := 0xcbf29ce484222325

def add (h : UInt64) (v : UInt8) : UInt64 := (h ^^^ v.toUInt64) * 0x100000001b3

def ofBytes (bytes : List UInt8) : UInt64 := bytes.foldl add start

/-- The digest of an array of bytes. -/
def ofArray (bytes : Array UInt8) : UInt64 := bytes.foldl add start

end Zx81.Text.Digest
