import Pans.Buffer.Theorems
import Pans.Formatter.Theorems
import Pans.Logger.Theorems
import Pans.Strings.Theorems
import Pans.Threads.Theorems
import Pans.Utils.Theorems
