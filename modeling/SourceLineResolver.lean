import SourceLineResolver.Libc
import SourceLineResolver.Tokenize
import SourceLineResolver.RangeMap
import SourceLineResolver.Types
import SourceLineResolver.Parse
import SourceLineResolver.Load
import SourceLineResolver.Invariant
import SourceLineResolver.Reference
import SourceLineResolver.Frame
import SourceLineResolver.Dwarf
import SourceLineResolver.Params
import SourceLineResolver.Lookup
import SourceLineResolver.FuncRecord
import SourceLineResolver.CurFunc
import SourceLineResolver.Simulation
import SourceLineResolver.RecordText
import SourceLineResolver.SymbolFile
import SourceLineResolver.ErrorCap
import SourceLineResolver.StackRecord
import SourceLineResolver.Resolve
