import Gaia.Strings.Ascii
import Gaia.Strings.Decimal
import Gaia.Strings.SafeStrto
import Gaia.Strings.StrtolGrammar
import Gaia.Strings.AutoDigit
import Gaia.Strings.AutoDigitOrder
import Gaia.Strings.FastToBuffer
import Gaia.Strings.ItoaWithCommas
import Gaia.Strings.ParseLeading
import Gaia.Strings.StringPrintf
import Gaia.Strings.IntToString
import Gaia.Strings.Kmgt
import Gaia.Strings.ReadersAgree
import Gaia.Strings.ReadBack
import Gaia.Examples.PingServer
