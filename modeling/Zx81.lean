import Zx81.Bus.Scripted
import Zx81.Machine.Inspect
import Zx81.Main
import Zx81.Proofs.BlockSearch
import Zx81.Proofs.BlockTransfer
import Zx81.Proofs.CharacterRows
import Zx81.Proofs.ChipInputs
import Zx81.Proofs.HaltInvariant
import Zx81.Proofs.IndexSubstitution
import Zx81.Proofs.InterruptNesting
import Zx81.Proofs.LineCapacity
import Zx81.Proofs.LineTiming
import Zx81.Proofs.Linkage
import Zx81.Proofs.LoopBound
import Zx81.Proofs.MemoryAliases
import Zx81.Proofs.PictureRows
import Zx81.Proofs.ProgramLoading
import Zx81.Proofs.ResetResidue
import Zx81.Proofs.ScheduleOrder
import Zx81.Proofs.TypedText
import Zx81.Proofs.WaitStates
import Zx81.Text.Digest
import Zx81.Text.Runs
import Zx81.Proofs.LineCuts
import Zx81.Proofs.BitForms
import Zx81.Proofs.PortLoops
import Zx81.Proofs.LongArithmetic
import Zx81.Proofs.BinaryArithmetic
import Zx81.Proofs.WordArithmetic
import Zx81.Proofs.PrefixChains
import Zx81.Proofs.WindowBorder
import Zx81.Proofs.PictureCrop
import Zx81.Proofs.KeyboardScan
import Zx81.Proofs.CharacterBoard
import Zx81.Proofs.RequestTrace
import Zx81.Proofs.RefreshCount
import Zx81.Proofs.RequestBounds
