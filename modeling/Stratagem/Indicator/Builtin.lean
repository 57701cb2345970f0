import Stratagem.Indicator.Registry

/-! The indicator types that every compiler knows. -/

namespace Stratagem

namespace Builtin

def intParam (name : String) (default least most : Int) (aliases : List String := []) :
    ParamSpec where
  name
  kind := .int
  default := .int default
  minimum := some (.int least)
  maximum := some (.int most)
  aliases

/-- A float parameter; its numbers are given in thousandths. -/
def floatParam (name : String) (default least most : Nat) (aliases : List String := []) :
    ParamSpec where
  name
  kind := .float
  default := .float (Binary64.ofRatio false default 1000)
  minimum := some (.float (Binary64.ofRatio false least 1000))
  maximum := some (.float (Binary64.ofRatio false most 1000))
  aliases

def period (default : Int) : ParamSpec :=
  intParam "period" default 1 1000 ["timeperiod", "length"]

def source : ParamSpec where
  name := "source"
  kind := .text
  default := .text "close"
  choices := ["open", "high", "low", "close", "volume"]

/-- A function of one column over a number of candles. -/
def ofColumn (type : String) (candles : Int) (description : String) : IndicatorSpec where
  type
  params := [period candles, source]
  outputs := [""]
  snippet := [.assign (.column "")
    [s!"ta.{type}(", .paramColumn "source", ", timeperiod=", .param "period", ")"]]
  warmup := { terms := [(1, "period")] }
  description

/-- A function of whole candles over a number of them. -/
def ofCandles (type : String) (candles : Int) (description : String) : IndicatorSpec where
  type
  params := [period candles]
  outputs := [""]
  snippet := [.assign (.column "") [s!"ta.{type}(dataframe, timeperiod=", .param "period", ")"]]
  warmup := { constant := 1, terms := [(1, "period")] }
  description

def macd : IndicatorSpec where
  type := "MACD"
  params := [intParam "fast" 12 1 500 ["fastperiod", "fast_period"],
    intParam "slow" 26 2 1000 ["slowperiod", "slow_period"],
    intParam "signal" 9 1 500 ["signalperiod", "signal_period"]]
  outputs := ["", "signal", "histogram"]
  snippet := [
    .assign (.helper "raw") ["ta.MACD(dataframe, fastperiod=", .param "fast", ", slowperiod=",
      .param "slow", ", signalperiod=", .param "signal", ")"],
    .assign (.column "") [.helper "raw", "['macd']"],
    .assign (.column "signal") [.helper "raw", "['macdsignal']"],
    .assign (.column "histogram") [.helper "raw", "['macdhist']"]]
  warmup := { terms := [(1, "slow"), (1, "signal")] }
  description := "Moving Average Convergence Divergence"

def bollinger : IndicatorSpec where
  type := "BB"
  params := [period 20, floatParam "std_dev" 2000 100 10000 ["stddev", "nbdev"]]
  outputs := ["upper", "middle", "lower", "width"]
  defaultField := some "middle"
  snippet := [
    .assign (.helper "raw") ["ta.BBANDS(dataframe, timeperiod=", .param "period", ", nbdevup=",
      .literal "std_dev", ", nbdevdn=", .literal "std_dev", ", matype=0)"],
    .assign (.column "upper") [.helper "raw", "['upperband']"],
    .assign (.column "middle") [.helper "raw", "['middleband']"],
    .assign (.column "lower") [.helper "raw", "['lowerband']"],
    .assign (.column "width") ["(", .helper "raw", "['upperband'] - ", .helper "raw",
      "['lowerband']) / ", .helper "raw", "['middleband']"]]
  warmup := { terms := [(1, "period")] }
  description := "Bollinger Bands"

def keltner : IndicatorSpec where
  type := "KC"
  params := [intParam "period" 20 1 1000 ["window"],
    floatParam "atrs" 2000 100 10000 ["multiplier"]]
  outputs := ["upper", "middle", "lower"]
  defaultField := some "middle"
  imports := ["qtpylib"]
  snippet := [
    .assign (.helper "raw") ["qtpylib.keltner_channel(dataframe, window=", .param "period",
      ", atrs=", .literal "atrs", ")"],
    .assign (.column "upper") [.helper "raw", "['upper']"],
    .assign (.column "middle") [.helper "raw", "['mid']"],
    .assign (.column "lower") [.helper "raw", "['lower']"]]
  warmup := { constant := 1, terms := [(1, "period")] }
  description := "Keltner Channel"

def stochastic : IndicatorSpec where
  type := "STOCH"
  params := [intParam "k" 14 1 500 ["fastk_period"], intParam "d" 3 1 500 ["slowd_period"],
    intParam "smooth" 3 1 500 ["slowk_period"]]
  outputs := ["k", "d"]
  defaultField := some "k"
  snippet := [
    .assign (.helper "raw") ["ta.STOCH(dataframe, fastk_period=", .param "k", ", slowk_period=",
      .param "smooth", ", slowk_matype=0, slowd_period=", .param "d", ", slowd_matype=0)"],
    .assign (.column "k") [.helper "raw", "['slowk']"],
    .assign (.column "d") [.helper "raw", "['slowd']"]]
  warmup := { terms := [(1, "k"), (1, "smooth"), (1, "d")] }
  description := "Stochastic Oscillator"

def stochasticRsi : IndicatorSpec where
  type := "STOCH_RSI"
  params := [period 14, intParam "k" 3 1 500 ["fastk_period"],
    intParam "d" 3 1 500 ["fastd_period"]]
  outputs := ["k", "d"]
  defaultField := some "k"
  snippet := [
    .assign (.helper "raw") ["ta.STOCHRSI(dataframe, timeperiod=", .param "period",
      ", fastk_period=", .param "k", ", fastd_period=", .param "d", ", fastd_matype=0)"],
    .assign (.column "k") [.helper "raw", "['fastk']"],
    .assign (.column "d") [.helper "raw", "['fastd']"]]
  warmup := { terms := [(2, "period"), (1, "k"), (1, "d")] }
  description := "Stochastic RSI"

def directional : IndicatorSpec where
  type := "ADX"
  params := [period 14]
  outputs := ["", "plus_di", "minus_di"]
  snippet := [
    .assign (.column "") ["ta.ADX(dataframe, timeperiod=", .param "period", ")"],
    .assign (.column "plus_di") ["ta.PLUS_DI(dataframe, timeperiod=", .param "period", ")"],
    .assign (.column "minus_di") ["ta.MINUS_DI(dataframe, timeperiod=", .param "period", ")"]]
  warmup := { terms := [(2, "period")] }
  description := "Average Directional Index"

/-- A running total without parameters. -/
def runningTotal (type description : String) : IndicatorSpec where
  type
  params := []
  outputs := [""]
  snippet := [.assign (.column "") [s!"ta.{type}(dataframe)"]]
  warmup := { constant := 1 }
  description

def volumeWeighted : IndicatorSpec where
  type := "VWAP"
  params := [intParam "window" 200 1 5000 ["period"]]
  outputs := [""]
  imports := ["qtpylib"]
  snippet := [.assign (.column "")
    ["qtpylib.rolling_vwap(dataframe, window=", .param "window", ")"]]
  warmup := { terms := [(1, "window")] }
  description := "Rolling Volume Weighted Average Price"

def moneyFlow : IndicatorSpec where
  type := "CMF"
  params := [period 20]
  outputs := [""]
  imports := []
  snippet := [
    .assign (.helper "mfv") ["((", .market "close", " - ", .market "low", ") - (", .market "high",
      " - ", .market "close", ")) / (", .market "high", " - ", .market "low", ") * ",
      .market "volume"],
    .assign (.column "") [.helper "mfv", ".rolling(", .param "period", ").sum() / ",
      .market "volume", ".rolling(", .param "period", ").sum()"]]
  warmup := { terms := [(1, "period")] }
  description := "Chaikin Money Flow"

/-- The middle of the highest high and the lowest low over a number of candles. -/
def midRange (candles : String) : List Piece :=
  ["(", .market "high", ".rolling(", .param candles, ").max() + ", .market "low", ".rolling(",
   .param candles, ").min()) / 2"]

def ichimoku : IndicatorSpec where
  type := "ICHIMOKU"
  params := [intParam "conv" 9 1 500 ["conversion"], intParam "base" 26 1 500,
    intParam "span" 52 1 1000 ["lagging"]]
  outputs := ["tenkan", "kijun", "senkou_a", "senkou_b"]
  defaultField := none
  imports := []
  snippet := [
    .assign (.column "tenkan") (midRange "conv"),
    .assign (.column "kijun") (midRange "base"),
    .assign (.column "senkou_a") ["((", .column "tenkan", " + ", .column "kijun",
      ") / 2).shift(", .param "base", ")"],
    .assign (.column "senkou_b") (.text "(" :: (midRange "span" ++
      [.text ").shift(", .param "base", .text ")"]))]
  warmup := { terms := [(1, "span"), (1, "base")] }
  description := "Ichimoku Cloud"

def parabolic : IndicatorSpec where
  type := "SAR"
  params := [floatParam "acceleration" 20 1 1000, floatParam "maximum" 200 10 1000]
  outputs := [""]
  snippet := [.assign (.column "") ["ta.SAR(dataframe, acceleration=", .literal "acceleration",
    ", maximum=", .literal "maximum", ")"]]
  warmup := { constant := 2 }
  description := "Parabolic SAR"

def pivot : IndicatorSpec where
  type := "PIVOT"
  params := []
  outputs := ["", "r1", "s1", "r2", "s2"]
  imports := []
  snippet := [
    .assign (.helper "high") [.market "high", ".shift(1)"],
    .assign (.helper "low") [.market "low", ".shift(1)"],
    .assign (.column "") ["(", .helper "high", " + ", .helper "low", " + ", .market "close",
      ".shift(1)) / 3"],
    .assign (.column "r1") ["2 * ", .column "", " - ", .helper "low"],
    .assign (.column "s1") ["2 * ", .column "", " - ", .helper "high"],
    .assign (.column "r2") [.column "", " + (", .helper "high", " - ", .helper "low", ")"],
    .assign (.column "s2") [.column "", " - (", .helper "high", " - ", .helper "low", ")"]]
  warmup := { constant := 2 }
  description := "Classic pivot points from the previous candle"

def supertrend : IndicatorSpec where
  type := "SUPERTREND"
  params := [period 10, floatParam "multiplier" 3000 100 20000]
  outputs := ["upper", "lower"]
  defaultField := none
  snippet := [
    .assign (.helper "atr") ["ta.ATR(dataframe, timeperiod=", .param "period", ")"],
    .assign (.helper "hl2") ["(", .market "high", " + ", .market "low", ") / 2"],
    .assign (.column "upper") [.helper "hl2", " + (", .literal "multiplier", " * ", .helper "atr",
      ")"],
    .assign (.column "lower") [.helper "hl2", " - (", .literal "multiplier", " * ", .helper "atr",
      ")"]]
  warmup := { constant := 1, terms := [(1, "period")] }
  description := "Supertrend bands"

def specs : List IndicatorSpec := [
  ofColumn "RSI" 14 "Relative Strength Index",
  ofColumn "SMA" 20 "Simple Moving Average",
  ofColumn "EMA" 20 "Exponential Moving Average",
  ofColumn "WMA" 20 "Weighted Moving Average",
  ofColumn "DEMA" 20 "Double Exponential Moving Average",
  ofColumn "TEMA" 20 "Triple Exponential Moving Average",
  ofColumn "KAMA" 30 "Kaufman Adaptive Moving Average",
  ofColumn "MOM" 10 "Momentum",
  ofColumn "ROC" 10 "Rate of Change",
  macd, bollinger, keltner, stochastic, stochasticRsi,
  ofCandles "ATR" 14 "Average True Range",
  directional,
  ofCandles "CCI" 20 "Commodity Channel Index",
  ofCandles "WILLR" 14 "Williams %R",
  ofCandles "MFI" 14 "Money Flow Index",
  runningTotal "OBV" "On Balance Volume",
  runningTotal "AD" "Accumulation/Distribution Line",
  volumeWeighted, moneyFlow, ichimoku, parabolic, pivot, supertrend]

end Builtin

/-- The registry of the built-in types. -/
def Registry.builtin : Registry := ⟨Builtin.specs.map fun spec => (spec.type, spec)⟩

end Stratagem
