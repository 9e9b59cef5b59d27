import Gleaner.Text.Basic

/-! # Version -/

namespace Gleaner

def version : Text := "0.1.0".toList

end Gleaner
