import Pgx.NamedArgs.Spec
import Pgx.NamedArgs.Simple
import Pgx.Connect.Agreement
import Pgx.Connect.KeywordValue
import Pgx.Conn.BgReader
import Pgx.Conn.SingleQuery
import Pgx.Conn.BatchColumns
import Pgx.Sanitize.Identifier
import Pgx.Sanitize.SimpleBatch
import Pgx.Pgtype.NumericJSON
import Pgx.Pgtype.NumericToInt
import Pgx.Pgtype.TextArrayRoundTrip
import Pgx.Pgtype.BinaryScanSafe
import Pgx.Pgtype.BinaryRoundTrip
import Pgx.Pgtype.TextScanSafe
import Pgx.Pgtype.CompositeText
import Pgx.Pgtype.IntervalText
import Pgx.Pgtype.RangeText
import Pgx.Pgtype.Uuid
import Pgx.Rows.ByName
import Pgx.Rows.Cache
import Pgx.Copy.ReadBack
import Pgx.BatchResults.Order
import Pgx.Proto3.RoundTrip
import Pgx.Proto3.Iobufpool
import Pgx.Tx.Root
